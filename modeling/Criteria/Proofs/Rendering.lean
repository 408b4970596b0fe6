/-
The text of a rule determines the rule. In either layout it is read back as the JSON form of the
rule, and no two rules have the same JSON form, so no two have the same text, whatever is in their
names and values.

The layouts say the same, and this is so character by character: the compact text is what is left of
the indented one without its white space outside string literals (`Json.squeeze`). The printer
writes in front of a text that is already there, and so this is shown of a value with any text
behind it: no string literal is open where the value ends, whatever a string in it holds.
-/
import Criteria.Conversion
import Criteria.Proofs.Reading

set_option autoImplicit false

namespace Criteria

namespace Json

/-! ## White space outside string literals -/

mutual

/-- The text without the white space outside string literals. -/
def squeeze : Text → Text
  | [] => []
  | '"' :: s => '"' :: squeezeString s
  | c :: s => if isSpace c then squeeze s else c :: squeeze s

/-- The same for a text behind an opening quotation mark: nothing is left out up to the closing one,
and a character behind a backslash does not close anything. -/
def squeezeString : Text → Text
  | [] => []
  | '"' :: s => '"' :: squeeze s
  | '\\' :: c :: s => '\\' :: c :: squeezeString s
  | c :: s => c :: squeezeString s

end

variable {c : Char} (s : Text)

theorem squeeze_cons (hquote : c ≠ '"') (hspace : isSpace c = false) :
    squeeze (c :: s) = c :: squeeze s := by
  rw [squeeze]
  · rw [hspace]
    rfl
  · exact hquote

theorem squeeze_append {gap : Text} (hgap : ∀ c ∈ gap, isSpace c = true) :
    squeeze (gap ++ s) = squeeze s := by
  induction gap with
  | nil => rfl
  | cons c gap ih =>
    rw [List.forall_mem_cons] at hgap
    rw [List.cons_append, squeeze]
    · rw [if_pos hgap.1]
      exact ih hgap.2
    · rintro rfl
      cases hgap.1

theorem squeeze_lineBreak (depth : Nat) :
    squeeze (Layout.indented.lineBreak depth ++ s) = squeeze s :=
  squeeze_append s (isSpace_of_mem_lineBreak .indented depth)

theorem squeezeString_cons (hquote : c ≠ '"') (hslash : c ≠ '\\') :
    squeezeString (c :: s) = c :: squeezeString s := by
  rw [squeezeString]
  · exact hquote
  · intro _ _ hc _
    exact hslash hc

theorem hexDigit_plain : ∀ n < 32, hexDigit n ≠ '"' ∧ hexDigit n ≠ '\\' := by
  decide

/-- Inside a string literal no escaped character is taken apart, and none closes it. -/
theorem squeezeString_escaped (c : Char) :
    squeezeString (escaped c ++ s) = escaped c ++ squeezeString s := by
  unfold escaped
  split
  · rfl
  · rfl
  · rfl
  · rfl
  · rfl
  · rfl
  · rfl
  · rename_i hquote hslash _ _ _ _ _
    by_cases hcontrol : c.toNat < 0x20
    · have hhigh := hexDigit_plain (c.toNat / 16) (by omega)
      have hlow := hexDigit_plain (c.toNat % 16) (by omega)
      rw [if_pos hcontrol]
      simp only [List.cons_append, List.nil_append, squeezeString]
      rw [squeezeString_cons _ (by decide) (by decide),
        squeezeString_cons _ (by decide) (by decide), squeezeString_cons _ hhigh.1 hhigh.2,
        squeezeString_cons _ hlow.1 hlow.2]
    · rw [if_neg hcontrol]
      exact squeezeString_cons s hquote hslash

/-- A string literal is kept as it is, whatever it holds. -/
theorem squeeze_quoted (t : Text) : squeeze (quoted t ++ s) = quoted t ++ squeeze s := by
  have hinside : squeezeString (t.flatMap escaped ++ '"' :: s) =
      t.flatMap escaped ++ '"' :: squeeze s := by
    induction t with
    | nil => rfl
    | cons c t ih =>
      rw [List.flatMap_cons, List.append_assoc, squeezeString_escaped, ih, List.append_assoc]
  rw [quoted, List.cons_append, List.append_assoc, List.singleton_append, squeeze, hinside,
    List.cons_append, List.append_assoc, List.singleton_append]

/-! ## The layouts compared -/

/-- `v.Squeezes`: without its white space what is written for the value `v` indented is what is
written for it compactly. -/
def Squeezes (v : Json) : Prop :=
  ∀ (depth : Nat) (rest : Text),
    squeeze (v.write .indented depth rest) = v.write .compact depth (squeeze rest)

theorem squeeze_writeItems {items : List Json} (h : ∀ v ∈ items, v.Squeezes) (depth : Nat)
    (rest : Text) :
    squeeze (writeItems .indented depth items rest) =
      writeItems .compact depth items (squeeze rest) := by
  induction items with
  | nil => rfl
  | cons item items ih =>
    rw [List.forall_mem_cons] at h
    rw [writeItems, writeItems, squeeze_cons _ (by decide) (by decide), squeeze_lineBreak, h.1,
      ih h.2]
    rfl

/-- A key and its value. -/
theorem squeeze_member {value : Json} (h : value.Squeezes) (key : Text) (depth : Nat)
    (rest : Text) :
    squeeze (quoted key ++ Layout.indented.colon ++ value.write .indented depth rest) =
      quoted key ++ Layout.compact.colon ++ value.write .compact depth (squeeze rest) := by
  have hcolon : squeeze (Layout.indented.colon ++ value.write .indented depth rest) =
      ':' :: value.write .compact depth (squeeze rest) := by
    change squeeze (':' :: ([' '] ++ value.write .indented depth rest)) = _
    rw [squeeze_cons _ (by decide) (by decide), squeeze_append _ (by simp [isSpace]), h]
  rw [List.append_assoc, squeeze_quoted, List.append_assoc, hcolon]
  rfl

theorem squeeze_writeMembers {members : List (Text × Json)} (h : ∀ m ∈ members, m.2.Squeezes)
    (depth : Nat) (rest : Text) :
    squeeze (writeMembers .indented depth members rest) =
      writeMembers .compact depth members (squeeze rest) := by
  induction members with
  | nil => rfl
  | cons member members ih =>
    obtain ⟨key, value⟩ := member
    rw [List.forall_mem_cons] at h
    have hvalue : value.Squeezes := h.1
    rw [writeMembers, writeMembers, squeeze_cons _ (by decide) (by decide), List.append_assoc,
      List.append_assoc, squeeze_lineBreak, ← List.append_assoc, squeeze_member hvalue, ih h.2]
    rfl

theorem squeeze_write (v : Json) : v.Squeezes := by
  induction v using induct with
  | null =>
    intro depth rest
    rfl
  | str t =>
    intro depth rest
    rw [write, write, squeeze_quoted]
  | arr items ih =>
    intro depth rest
    cases items with
    | nil => rfl
    | cons item items =>
      rw [List.forall_mem_cons] at ih
      rw [write, write, squeeze_cons _ (by decide) (by decide), squeeze_lineBreak, ih.1,
        squeeze_writeItems ih.2, squeeze_lineBreak, squeeze_cons _ (by decide) (by decide)]
      rfl
  | obj members ih =>
    intro depth rest
    cases members with
    | nil => rfl
    | cons member members =>
      obtain ⟨key, value⟩ := member
      rw [List.forall_mem_cons] at ih
      have hvalue : value.Squeezes := ih.1
      rw [write, write, squeeze_cons _ (by decide) (by decide), List.append_assoc,
        List.append_assoc, squeeze_lineBreak, ← List.append_assoc, squeeze_member hvalue,
        squeeze_writeMembers ih.2, squeeze_lineBreak, squeeze_cons _ (by decide) (by decide)]
      rfl

/-- **The layouts differ in white space alone.** -/
theorem squeeze_render (v : Json) : squeeze (v.render .indented) = v.render .compact := by
  rw [render, squeeze_write]
  rfl

/-! ## Rules and their JSON form -/

theorem single_inj {k k' : Text} {v v' : Json} : single k v = single k' v' ↔ k = k' ∧ v = v' := by
  simp [single]

end Json

/-- What the text of a conversion is read back as. -/
def Options.denoted (o : Options) (criterion : String) : Except Error (Option Json) :=
  (o.convert criterion).map fun text => Json.read? text.toList

namespace Rule

/-- The JSON form of a rule is no array, so a negation is not taken for another operator. -/
theorem toJson_ne_arr (r : Rule) (items : List Json) : r.toJson ≠ .arr items := by
  cases r <;> nofun

mutual

/-- Rules with the same JSON form are the same. -/
theorem eq_of_toJson_eq : (r r' : Rule) → r.toJson = r'.toJson → r = r'
  | .null, r', h => by
    cases r' <;> cases h
    rfl
  | .text s, r', h => by
    cases r' <;> cases h
    rfl
  | .var field, r', h => by
    cases r' with
    | null => cases h
    | text s => cases h
    | var field' =>
      cases h
      rfl
    | negate r' => exact absurd (Json.single_inj.mp h).1 (by decide)
    | apply operator args => cases (Json.single_inj.mp h).2
  | .negate r, r', h => by
    cases r' with
    | null => cases h
    | text s => cases h
    | var field => exact absurd (Json.single_inj.mp h).1 (by decide)
    | negate r' => rw [eq_of_toJson_eq r r' (Json.single_inj.mp h).2]
    | apply operator args => exact absurd (Json.single_inj.mp h).2 (r.toJson_ne_arr _)
  | .apply operator args, r', h => by
    cases r' with
    | null => cases h
    | text s => cases h
    | var field => cases (Json.single_inj.mp h).2
    | negate r' => exact absurd (Json.single_inj.mp h).2.symm (r'.toJson_ne_arr _)
    | apply operator' args' =>
      obtain ⟨hoperator, hargs⟩ := Json.single_inj.mp h
      rw [hoperator, eq_of_toJsons_eq args args' (Json.arr.inj hargs)]

/-- Lists of rules with the same JSON forms are the same. -/
theorem eq_of_toJsons_eq : (rs rs' : List Rule) → toJsons rs = toJsons rs' → rs = rs'
  | [], [], _ => rfl
  | [], _ :: _, h => by cases h
  | _ :: _, [], h => by cases h
  | r :: rs, r' :: rs', h => by
    obtain ⟨hhead, htail⟩ := List.cons.inj h
    rw [eq_of_toJson_eq r r' hhead, eq_of_toJsons_eq rs rs' htail]

end

/-! ## Texts of rules -/

theorem toList_render (r : Rule) (layout : Layout) :
    (r.render layout).toList = r.toJson.render layout := String.toList_ofList

theorem read?_toList_render (r : Rule) (layout : Layout) :
    Json.read? (r.render layout).toList = some r.toJson := by
  rw [toList_render, Json.read?_render]

end Rule

/-- The text of a conversion denotes the rule, whatever the options. -/
theorem Options.denoted_eq (o : Options) (criterion : String) :
    o.denoted criterion = (o.toRule criterion).map fun r => some r.toJson := by
  rw [denoted, convert]
  cases o.toRule criterion with
  | error e => rfl
  | ok r => exact congrArg Except.ok (r.read?_toList_render o.layout)

namespace Rule

/-- **The text of a rule determines the rule.** In either layout it is read back as the JSON form of
the rule; the compact text is the indented one without its white space outside string literals; no
two rules have the same text, in one layout or across both. So the two layouts of a conversion
denote the one rule that the criterion has; where it has none, both give the same error. -/
theorem render_determines :
    (∀ (r : Rule) (layout : Layout), Json.read? (r.render layout).toList = some r.toJson) ∧
    (∀ r : Rule, Json.squeeze (r.render .indented).toList = (r.render .compact).toList) ∧
    (∀ (r r' : Rule) (layout layout' : Layout), r ≠ r' → r.render layout ≠ r'.render layout') ∧
    (∀ (o : Options) (criterion : String),
      o.denoted criterion = (o.toRule criterion).map (fun r => some r.toJson) ∧
      o.compact.denoted criterion = (o.toRule criterion).map fun r => some r.toJson) := by
  refine ⟨read?_toList_render, fun r => ?_, fun r r' layout layout' hne htext => ?_,
    fun o criterion => ⟨o.denoted_eq criterion, o.compact.denoted_eq criterion⟩⟩
  · rw [toList_render, toList_render, Json.squeeze_render]
  · have hlist := congrArg String.toList htext
    rw [toList_render, toList_render] at hlist
    exact hne (eq_of_toJson_eq r r' (Json.eq_of_render_eq hlist))

/-- A variable whose name is made to look like the end of its object, and an operator that is called
`var`. -/
theorem render_determines_quoted : ∃ r r' : Rule,
    r.render .compact = "\x7b\"var\":\"a\\\"\x7d,\\n\\\\ \\u0001\"\x7d" ∧
    Json.read? (r.render .compact).toList = some r.toJson ∧
    Json.squeeze (r.render .indented).toList = (r.render .compact).toList ∧
    r'.render .indented =
      "\x7b\n  \"var\": [\n    \"a\",\n    \x7b\n      \"!\": null\n    \x7d\n  ]\n\x7d" ∧
    r ≠ r' ∧ r.render .compact ≠ r'.render .indented := by
  have hne : Rule.var "a\"\x7d,\n\\ \x01".toList ≠
      .apply "var".toList [.text "a".toList, .negate .null] := by nofun
  exact ⟨_, _, rfl, render_determines.1 _ _, render_determines.2.1 _, rfl, hne,
    render_determines.2.2.1 _ _ _ _ hne⟩

end Rule

end Criteria
