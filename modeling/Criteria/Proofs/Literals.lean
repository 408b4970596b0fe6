/-
What is left at the edges of literals. Three characters delimit literals, `#` and the two quotation
marks, and strings come out of a criterion in three ways. The value of a comparison loses all three at
its edges. The value of a call loses quotation marks only, and a date loses number signs only. So in
`contains([A], #x#)` the number signs stay, and in `#'x'#` the quotation marks.

Whether a result has such a string is therefore a matter of the calls and the dates among its
conditions (`Expr.stripped_iff`), and these are the tokens that stand alone as conditions. Where none
of them keeps a delimiter no string does, and otherwise one does.
-/
import Criteria.Proofs.Conservation
import Criteria.Proofs.Trees
import Mathlib.Data.List.DropRight

set_option autoImplicit false

namespace Criteria

/-! ## Edges -/

namespace Text

/-- No character that satisfies `p` stands at an edge of a text. -/
def EdgeFree (p : Char → Bool) (s : Text) : Prop :=
  s.head?.any p = false ∧ s.getLast?.any p = false

instance (p : Char → Bool) (s : Text) : Decidable (EdgeFree p s) :=
  inferInstanceAs (Decidable (_ ∧ _))

theorem edgeFree_nil (p : Char → Bool) : EdgeFree p [] := ⟨rfl, rfl⟩

/-- Two classes stay away from the edges if the class of both does. -/
theorem edgeFree_or_iff {p q : Char → Bool} {s : Text} :
    EdgeFree (fun c => p c || q c) s ↔ EdgeFree p s ∧ EdgeFree q s := by
  have hany : ∀ o : Option Char,
      o.any (fun c => p c || q c) = false ↔ o.any p = false ∧ o.any q = false := by
    intro o
    cases o <;> simp
  rw [EdgeFree, EdgeFree, EdgeFree, hany, hany]
  exact and_and_and_comm

/-- Trimming leaves nothing of its class at the edges. -/
theorem edgeFree_trim (p : Char → Bool) (s : Text) : EdgeFree p (s.trim p) := by
  have hhead := head?_dropWhile p s
  by_cases hne : s.trim p = []
  · rw [hne]
    exact edgeFree_nil p
  · constructor
    · -- The first character stays, since the end is trimmed behind it.
      obtain ⟨r, hr⟩ : s.trim p <+: s.dropWhile p := List.rdropWhile_prefix p _
      rwa [← hr, List.head?_append_of_ne_nil _ hne] at hhead
    · have hlast := List.rdropWhile_last_not p (s.dropWhile p) hne
      rw [List.getLast?_eq_some_getLast hne, Option.any_some]
      exact Bool.eq_false_iff.mpr hlast

end Text

/-! ## Strings of a value -/

namespace Json

/-- No string of a value has a delimiter at an edge, except for the names of variables. -/
def Stripped (v : Json) : Prop :=
  ∀ path s, v.at? path = some (.str s) → .key "var".toList ∉ path → s.EdgeFree Atom.isDelimiter

theorem stripped_str_iff {s : Text} : (Json.str s).Stripped ↔ s.EdgeFree Atom.isDelimiter := by
  constructor
  · intro h
    exact h [] s rfl List.not_mem_nil
  · intro h path s' hpath _
    cases (at?_str_iff.mp hpath).2
    exact h

theorem stripped_null : Json.null.Stripped := by
  intro path s hpath _
  cases (at?_null_iff.mp hpath).2

theorem stripped_var (name : Text) : (Json.var name).Stripped := by
  intro path s hpath hvar
  rcases at?_single_iff.mp hpath with ⟨-, hv⟩ | ⟨rest, rfl, -⟩
  · cases hv
  · exact absurd List.mem_cons_self hvar

theorem stripped_single_iff {k : Text} {v : Json} (hk : k ≠ "var".toList) :
    (single k v).Stripped ↔ v.Stripped := by
  constructor
  · intro h path s hpath hvar
    refine h (.key k :: path) s (at?_single_iff.mpr (.inr ⟨path, rfl, hpath⟩)) fun hmem => ?_
    rcases List.mem_cons.mp hmem with hkey | hmem
    · exact hk (Step.key.inj hkey).symm
    · exact hvar hmem
  · intro h path s hpath hvar
    rcases at?_single_iff.mp hpath with ⟨-, hv⟩ | ⟨rest, rfl, hrest⟩
    · cases hv
    · exact h rest s hrest fun hmem => hvar (List.mem_cons_of_mem _ hmem)

theorem stripped_pair_iff {a b : Json} : (Json.arr [a, b]).Stripped ↔ a.Stripped ∧ b.Stripped := by
  constructor
  · intro h
    constructor
    · intro path s hpath hvar
      refine h (.item 0 :: path) s (at?_pair_iff.mpr (.inr (.inl ⟨path, rfl, hpath⟩))) fun hmem => ?_
      rcases List.mem_cons.mp hmem with hitem | hmem
      · cases hitem
      · exact hvar hmem
    · intro path s hpath hvar
      refine h (.item 1 :: path) s (at?_pair_iff.mpr (.inr (.inr ⟨path, rfl, hpath⟩))) fun hmem => ?_
      rcases List.mem_cons.mp hmem with hitem | hmem
      · cases hitem
      · exact hvar hmem
  · rintro ⟨ha, hb⟩ path s hpath hvar
    rcases at?_pair_iff.mp hpath with ⟨-, hv⟩ | ⟨rest, rfl, hrest⟩ | ⟨rest, rfl, hrest⟩
    · cases hv
    · exact ha rest s hrest fun hmem => hvar (List.mem_cons_of_mem _ hmem)
    · exact hb rest s hrest fun hmem => hvar (List.mem_cons_of_mem _ hmem)

theorem stripped_binary_iff {operator : Text} {a b : Json} (h : operator ≠ "var".toList) :
    (Json.binary operator a b).Stripped ↔ a.Stripped ∧ b.Stripped := by
  rw [Json.binary, stripped_single_iff h, stripped_pair_iff]

end Json

/-! ## Conditions -/

/-- The rule of a predicate has a string only if the predicate takes a value. -/
theorem Predicate.stripped_rule_iff (p : Predicate) (field value : Text) :
    (p.rule field value).toJson.Stripped ↔
      (p.takesValue = true → value.EdgeFree Atom.isDelimiter) := by
  have hvar := Json.stripped_var field
  have hnull : ∀ operator : Text, operator ≠ "var".toList →
      (Json.binary operator (.var field) .null).Stripped := fun operator h =>
    (Json.stripped_binary_iff h).mpr ⟨hvar, Json.stripped_null⟩
  have hvalue : ∀ operator : Text, operator ≠ "var".toList →
      ((Json.binary operator (.var field) (.str value)).Stripped ↔
        value.EdgeFree Atom.isDelimiter) := by
    intro operator h
    rw [Json.stripped_binary_iff h, Json.stripped_str_iff]
    exact and_iff_right hvar
  cases p with
  | contains =>
    have hkey : "in".toList ≠ "var".toList := by decide
    rw [show (Predicate.contains.rule field value).toJson =
      Json.binary "in".toList (.str value) (.var field) from rfl, Json.stripped_binary_iff hkey,
      Json.stripped_str_iff, and_iff_left hvar]
    exact (imp_iff_right rfl).symm
  | startsWith => exact (hvalue _ (by decide)).trans (imp_iff_right rfl).symm
  | endsWith => exact (hvalue _ (by decide)).trans (imp_iff_right rfl).symm
  | isNull => exact iff_of_true (hnull _ (by decide)) fun h => absurd h Bool.noConfusion
  | isNotNull => exact iff_of_true (hnull _ (by decide)) fun h => absurd h Bool.noConfusion
  | isNullOrEmpty =>
    have hempty : (Json.binary "==".toList (.var field) (.str [])).Stripped :=
      (Json.stripped_binary_iff (by decide)).mpr
        ⟨hvar, Json.stripped_str_iff.mpr (Text.edgeFree_nil _)⟩
    refine iff_of_true ?_ fun h => absurd h Bool.noConfusion
    exact (Json.stripped_binary_iff (show "or".toList ≠ _ by decide)).mpr
      ⟨hnull _ (by decide), hempty⟩

theorem Atom.edgeFree_isDelimiter_iff {s : Text} :
    s.EdgeFree isDelimiter ↔ s.EdgeFree (· == '#') ∧ s.EdgeFree Call.isQuote := by
  have hclasses : isDelimiter = fun c => (c == '#') || Call.isQuote c := by
    funext c
    rw [isDelimiter, Call.isQuote, Bool.or_assoc]
  rw [hclasses]
  exact Text.edgeFree_or_iff

namespace Token

/-- What keeps the strings of a token that stands alone as a condition stripped: if it is a call with
a value, the value has no number sign at an edge, and if it is a date, the date has no quotation mark
there. -/
def Stripped (t : Token) : Prop :=
  (∀ c ∈ Call.whole? t.text, c.predicate.takesValue = true → c.value.EdgeFree (· == '#')) ∧
    ∀ s ∈ t.date?, s.EdgeFree Call.isQuote

instance (t : Token) : Decidable t.Stripped :=
  inferInstanceAs (Decidable (_ ∧ _))

end Token

namespace Atom

/-- The value of a comparison keeps no delimiter. -/
theorem stripped_compare (field : Token) (op : Comparison) (value : Token) :
    (compare field op value).toRule.toJson.Stripped := by
  have hkey : op.operator ≠ "var".toList := by cases op <;> decide
  refine (Json.stripped_binary_iff hkey).mpr ⟨Json.stripped_var _, ?_⟩
  exact Json.stripped_str_iff.mpr (Text.edgeFree_trim isDelimiter value.text)

/-- A call keeps number signs only, and a date keeps quotation marks only. -/
theorem stripped_ofToken?_iff {t : Token} {a : Atom} (h : ofToken? t = some a) :
    a.toRule.toJson.Stripped ↔ t.Stripped := by
  -- The token is a condition of one shape, so what the other shapes ask for is void.
  have hcall : ∀ c, Call.whole? t.text = some c → a = .call c := by
    intro c hc
    have hread := ofToken?_eq_some_iff.mpr (Spelled.call hc)
    rw [h] at hread
    exact Option.some.inj hread
  have hdate : ∀ s, t.date? = some s → a = .date s := by
    intro s hs
    have hread := ofToken?_eq_some_iff.mpr (Spelled.date hs)
    rw [h] at hread
    exact Option.some.inj hread
  cases ofToken?_eq_some_iff.mp h with
  | @date _ s hs =>
    have hsigns : s.EdgeFree (· == '#') := by
      obtain ⟨r, -, rfl⟩ := Option.map_eq_some_iff.mp hs
      exact Text.edgeFree_trim _ r
    have hstring : (Atom.date s).toRule.toJson.Stripped ↔ s.EdgeFree Call.isQuote := by
      refine Json.stripped_str_iff.trans ?_
      rw [edgeFree_isDelimiter_iff]
      exact and_iff_right hsigns
    rw [hstring]
    constructor
    · intro hquotes
      refine ⟨fun c hc => absurd (hcall c hc) (by simp), fun s' hs' => ?_⟩
      obtain rfl := Atom.date.inj (hdate s' hs')
      exact hquotes
    · intro ht
      exact ht.2 s hs
  | @call _ c hc =>
    have hquotes : c.value.EdgeFree Call.isQuote := Text.edgeFree_trim Call.isQuote _
    have hstring : (Atom.call c).toRule.toJson.Stripped ↔
        (c.predicate.takesValue = true → c.value.EdgeFree (· == '#')) := by
      refine (c.predicate.stripped_rule_iff c.field c.value).trans ?_
      rw [edgeFree_isDelimiter_iff, and_iff_left hquotes]
    rw [hstring]
    constructor
    · intro hsigns
      refine ⟨fun c' hc' => ?_, fun s hs => absurd (hdate s hs) (by simp)⟩
      obtain rfl := Atom.call.inj (hcall c' hc')
      exact hsigns
    · intro ht
      exact ht.1 c hc
  | @field _ name hname =>
    refine iff_of_true (Json.stripped_var name) ⟨fun c hc => ?_, fun s hs => ?_⟩
    · exact absurd (hcall c hc) (by simp)
    · exact absurd (hdate s hs) (by simp)

end Atom

/-! ## Expressions -/

namespace Expr

/-- The strings of an expression are those of its conditions. -/
theorem stripped_iff (e : Expr) :
    e.toRule.toJson.Stripped ↔ ∀ a ∈ e.atoms, a.toRule.toJson.Stripped := by
  have hjoin : ∀ (c : Connective) (l r : Expr),
      (Json.binary c.keyword l.toRule.toJson r.toRule.toJson).Stripped ↔
        l.toRule.toJson.Stripped ∧ r.toRule.toJson.Stripped := by
    intro c l r
    exact Json.stripped_binary_iff (by cases c <;> decide)
  induction e with
  | atom a => simp [atoms, toRule]
  | not e ih => exact (Json.stripped_single_iff (by decide)).trans ih
  | and l r ihl ihr =>
    rw [atoms, List.forall_mem_append]
    exact (hjoin .and l r).trans (and_congr ihl ihr)
  | or l r ihl ihr =>
    rw [atoms, List.forall_mem_append]
    exact (hjoin .or l r).trans (and_congr ihl ihr)

/-- The conditions of an expression are those that the segments of its tokens are. -/
theorem mem_atoms_iff {ts : List Token} {e : Expr} (h : ofTokens ts = .ok e) {a : Atom} :
    a ∈ e.atoms ↔ ∃ s ∈ Segment.ofTokens ts, s.atom? = some a := by
  have hatoms := (conserved_of_ofTokens_eq_ok h).atoms
  rw [List.flatMap_singleton] at hatoms
  have hmem : some a ∈ e.atoms.map some ↔ a ∈ e.atoms := by simp
  rw [← hmem, ← hatoms, List.mem_map]
  constructor
  · rintro ⟨s, hs, ha⟩
    exact ⟨s, List.mem_of_mem_filter hs, ha⟩
  · rintro ⟨s, hs, ha⟩
    exact ⟨s, List.mem_filter.mpr ⟨hs, Segment.isOperand_of_atom? ha⟩, ha⟩

end Expr

/-- **Which strings keep a delimiter.** In the value of an accepted criterion, under any options, no
string outside of variables starts or ends with a delimiter, exactly if among the tokens that stand
alone as conditions no call keeps a number sign at an edge of its value, and no date a quotation
mark. -/
theorem Options.stripped_toRule_iff {o : Options} {criterion : String} {r : Rule}
    (h : o.toRule criterion = .ok r) :
    r.toJson.Stripped ↔
      ∀ t, .lone t ∈ Segment.ofTokens (o.tokens criterion) → t.Stripped := by
  obtain ⟨e, he, rfl⟩ := exists_of_toRule h
  rw [e.stripped_iff]
  constructor
  · intro hatoms t ht
    -- The criterion was accepted, so the token is a condition.
    obtain ⟨st, hrun, -⟩ := Expr.ofTokens_eq_ok_iff.mp he
    obtain ⟨a, ha⟩ := (Stacks.holding_of_run hrun).exists_atom? ht rfl
    exact (Atom.stripped_ofToken?_iff ha).mp (hatoms a ((Expr.mem_atoms_iff he).mpr ⟨_, ht, ha⟩))
  · intro htokens a ha
    obtain ⟨s, hs, hsa⟩ := (Expr.mem_atoms_iff he).mp ha
    cases s with
    | paren p => cases hsa
    | connective c w => cases hsa
    | comparison field op value =>
      obtain rfl := Option.some.inj hsa
      exact Atom.stripped_compare field op value
    | lone t => exact (Atom.stripped_ofToken?_iff hsa).mpr (htokens t hs)

/-- In `[A] = "#x' or not endswith([B], 'y#z"')` the comparison has mixed delimiters at both edges of
its value, and the call a number sign inside of its value: no string keeps one at an edge. -/
theorem Options.stripped_toRule_iff_mixed :
    ∃ r, ({} : Options).toRule "[A] = \"#x' or not endswith([B], 'y#z\"')" = .ok r ∧
      r.toJson.Stripped := by
  have htokens : ({} : Options).tokens "[A] = \"#x' or not endswith([B], 'y#z\"')" =
      ["[A]", "=", "\"#x'", "or", "not", "endswith([B], 'y#z\"')"].map (⟨·.toList⟩) := by
    decide +kernel
  have hsegments : Segment.ofTokens
      (["[A]", "=", "\"#x'", "or", "not", "endswith([B], 'y#z\"')"].map (⟨·.toList⟩)) =
      [.comparison ⟨"[A]".toList⟩ .eq ⟨"\"#x'".toList⟩, .connective .or ⟨"or".toList⟩,
        .connective .not ⟨"not".toList⟩, .lone ⟨"endswith([B], 'y#z\"')".toList⟩] := by rfl
  have hrule : ({} : Options).toRule "[A] = \"#x' or not endswith([B], 'y#z\"')" =
      .ok (Expr.or (.atom (.comparison ['A'] .eq ['x']))
        (.not (.atom (.call ⟨.endsWith, "endswith".toList, ['B'], "y#z".toList⟩)))).toRule := by
    rw [Options.toRule, htokens]
    rfl
  refine ⟨_, hrule, (Options.stripped_toRule_iff hrule).mpr fun t ht => ?_⟩
  rw [htokens, hsegments] at ht
  obtain rfl : t = ⟨"endswith([B], 'y#z\"')".toList⟩ := by simpa using ht
  decide +kernel

/-- A call strips quotation marks and a date number signs, but neither strips both: the strings
of `contains([A], #x#)` and of `#'x'#` keep what the value of a comparison would lose. -/
theorem Options.not_stripped_toRule :
    (∃ r, ({} : Options).toRule "contains([A], #x#)" = .ok r ∧ ¬ r.toJson.Stripped) ∧
    (∃ r, ({} : Options).toRule "#'x'#" = .ok r ∧ ¬ r.toJson.Stripped) := by
  have hcall : ({} : Options).tokens "contains([A], #x#)" = [⟨"contains([A], #x#)".toList⟩] := by
    decide +kernel
  have hdate : ({} : Options).tokens "#'x'#" = [⟨"#'x'#".toList⟩] := by decide +kernel
  constructor
  · refine ⟨Expr.toRule (.atom (.call ⟨.contains, "contains".toList, ['A'], "#x#".toList⟩)), ?_, ?_⟩
    · rw [Options.toRule, hcall]
      rfl
    · intro h
      have hvalue := (Predicate.stripped_rule_iff .contains ['A'] "#x#".toList).mp h rfl
      revert hvalue
      decide
  · refine ⟨Expr.toRule (.atom (.date "'x'".toList)), ?_, ?_⟩
    · rw [Options.toRule, hdate]
      rfl
    · intro h
      have hquotes : Text.EdgeFree Atom.isDelimiter "'x'".toList := Json.stripped_str_iff.mp h
      revert hquotes
      decide

end Criteria
