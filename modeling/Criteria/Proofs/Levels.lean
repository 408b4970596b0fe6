/-
What waits binds tighter the higher it lies. Nothing in the method checks this, and all of its
results rest on it: a connective that is applied takes the operands on top, so whatever lies above it
has to have been applied before. Open groups divide what waits into levels, and on each level, from
the bottom up, there is at most one `or`, then at most one `and`, and then any number of `not`s.

Two neighbours on the stack decide it. A connective rests on another one only if it binds tighter or
is `not` (`Connective.RestsOn`), and every move keeps this for all neighbours: it pushes a group or a
`not`, which rest on anything; or it takes from the top, which leaves what remains as it was; or it
pushes `and` or `or` where everything has just been applied that binds at least as tightly. Whether
the tokens are an expression is of no importance.
-/
import Criteria.Proofs.Steps
import Mathlib.Data.List.Chain

set_option autoImplicit false

namespace Criteria

/-! ## Neighbours -/

namespace Connective

/-- Whether the connective `c` may wait right above `d`. -/
def RestsOn (c d : Connective) : Prop := c = .not ∨ d.precedence < c.precedence

instance (c d : Connective) : Decidable (RestsOn c d) :=
  inferInstanceAs (Decidable (c = .not ∨ d.precedence < c.precedence))

/-- Connectives, from the bottom up, that bind tighter and tighter: at most one `or`, then at most
one `and`, then any number of `not`s. -/
def Ascend (cs : List Connective) : Prop :=
  ∃ ors ands nots, ors ≤ 1 ∧ ands ≤ 1 ∧
    cs = List.replicate ors Connective.or ++
      (List.replicate ands Connective.and ++ List.replicate nots Connective.not)

theorem ascend_nil : Ascend [] := ⟨0, 0, 0, Nat.zero_le 1, Nat.zero_le 1, rfl⟩

/-- Connectives that `c` does not rest on are not right below it. -/
theorem eq_zero_of_not_restsOn {c d : Connective} {below : List Connective} {n : Nat}
    (hd : ¬ c.RestsOn d)
    (hrests : ∀ e, (below ++ List.replicate n d).getLast? = some e → c.RestsOn e) : n = 0 := by
  by_contra hn
  exact hd (hrests d (by simp [List.getLast?_append, List.getLast?_replicate, hn]))

/-- One more connective may wait above if it rests on what was the topmost one. -/
theorem Ascend.concat {cs : List Connective} {c : Connective} (h : Ascend cs)
    (hrests : ∀ d, cs.getLast? = some d → c.RestsOn d) : Ascend (cs ++ [c]) := by
  obtain ⟨ors, ands, nots, hors, hands, rfl⟩ := h
  cases c with
  | not =>
    refine ⟨ors, ands, nots + 1, hors, hands, ?_⟩
    rw [List.replicate_succ', List.append_assoc, List.append_assoc]
  | and =>
    -- Neither a `not` nor another `and` is below.
    rw [← List.append_assoc] at hrests
    obtain rfl : nots = 0 := eq_zero_of_not_restsOn (by decide) hrests
    rw [List.replicate_zero, List.append_nil] at hrests
    obtain rfl : ands = 0 := eq_zero_of_not_restsOn (by decide) hrests
    exact ⟨ors, 1, 0, hors, Nat.le_refl 1, by simp⟩
  | or =>
    -- Nothing is below, since nothing binds less tightly.
    rw [← List.append_assoc] at hrests
    obtain rfl : nots = 0 := eq_zero_of_not_restsOn (by decide) hrests
    rw [List.replicate_zero, List.append_nil] at hrests
    obtain rfl : ands = 0 := eq_zero_of_not_restsOn (by decide) hrests
    rw [List.replicate_zero, List.append_nil, ← List.nil_append (List.replicate ors _)] at hrests
    obtain rfl : ors = 0 := eq_zero_of_not_restsOn (by decide) hrests
    exact ⟨1, 0, 0, Nat.le_refl 1, Nat.zero_le 1, rfl⟩

/-- Connectives of which each rests on the next one ascend when they are read from the bottom up. -/
theorem ascend_reverse_of_isChain {cs : List Connective} (h : cs.IsChain RestsOn) :
    Ascend cs.reverse := by
  induction cs with
  | nil => exact ascend_nil
  | cons c cs ih =>
    obtain ⟨hrests, hchain⟩ := List.isChain_cons.mp h
    rw [List.reverse_cons]
    refine (ih hchain).concat fun d hd => hrests d ?_
    rwa [List.getLast?_reverse] at hd

end Connective

namespace Pending

/-- Whether `p` may wait right above `q`: only a connective asks what it rests on, and only if that
is a connective too. -/
def RestsOn (p q : Pending) : Prop :=
  ∀ c d, p = .connective c → q = .connective d → c.RestsOn d

/-- The connectives `cs`, from the top down, are a level of the stack `ps`: all that waits between
two open groups, or above the topmost group, or below the lowest one. -/
def Level (ps : List Pending) (cs : List Connective) : Prop :=
  ∃ above below, ps = above ++ (cs.map Pending.connective ++ below) ∧
    (above = [] ∨ above.getLast? = some .group) ∧ (below = [] ∨ below.head? = some .group)

theorem group_restsOn (q : Pending) : group.RestsOn q := by
  rintro c d ⟨⟩

theorem not_restsOn (q : Pending) : (connective .not).RestsOn q := by
  rintro c d ⟨⟩ -
  exact .inl rfl

/-- A level of a stack on which neighbours rest on each other ascends. -/
theorem Level.ascend {ps : List Pending} {cs : List Connective} (h : Level ps cs)
    (hchain : ps.IsChain RestsOn) : Connective.Ascend cs.reverse := by
  obtain ⟨above, below, rfl, -, -⟩ := h
  have hlevel := hchain.right_of_append.left_of_append
  have hconnectives := (List.isChain_map _).mp hlevel
  exact Connective.ascend_reverse_of_isChain (hconnectives.imp fun c d h => h c d rfl rfl)

end Pending

/-! ## Moves -/

namespace Stacks

/-- On the stack, everything rests on what is right below it. -/
def Rests (st : Stacks) : Prop := st.pending.IsChain Pending.RestsOn

/-- Unwinding leaves what it does not apply as it was. -/
theorem rests_of_unwind {p : Connective → Bool} {es : List Expr} {pending : List Pending}
    {st : Stacks} (hpending : pending.IsChain Pending.RestsOn)
    (h : unwind p es pending = .ok st) : st.Rests := by
  refine (unwind_induction (P := fun _ ps => ps.IsChain Pending.RestsOn) ?_ hpending h).1
  intro c es es' ps _ hps
  exact hps.of_cons

/-- What is pushed has to rest on what was on top. -/
theorem Rests.pushPending {st : Stacks} {p : Pending} (h : st.Rests)
    (hp : ∀ q, st.pending.head? = some q → p.RestsOn q) : (st.pushPending p).Rests :=
  List.isChain_cons.mpr ⟨hp, h⟩

/-- **Every move keeps it.** -/
theorem Rests.move {st st' : Stacks} {s : Segment} (hmove : Move st s st') (h : st.Rests) :
    st'.Rests := by
  cases hmove with
  | opening => exact h.pushPending fun q _ => Pending.group_restsOn q
  | closing hunwind => exact (rests_of_unwind h hunwind).of_cons
  | not => exact h.pushPending fun q _ => Pending.not_restsOn q
  | @binary c _ st₁ _ hunwind =>
    refine (rests_of_unwind h hunwind).pushPending ?_
    rintro q hq _ d ⟨⟩ rfl
    -- Unwinding has stopped here, so `d` binds less tightly.
    obtain ⟨ps, hps⟩ := List.head?_eq_some_iff.mp hq
    have hstop := eq_false_of_unwind hunwind hps
    exact .inr (Nat.lt_of_not_le (of_decide_eq_false hstop))
  | operand _ => exact h

theorem rests_of_run {ss : List Segment} {st : Stacks} (h : empty.run ss = .ok st) :
    st.Rests := by
  have hempty : empty.Rests := List.isChain_nil
  exact run_invariant Rests.move hempty h

/-! ## Levels -/

/-- The stacks that the method has, on the tokens `ts`, between two segments. -/
def Reached (ts : List Token) (st : Stacks) : Prop :=
  ∃ done rest, Segment.ofTokens ts = done ++ rest ∧ empty.run done = .ok st

/-- **On every level what waits ascends.** Whatever the tokens are and however far the method has
come, the connectives that wait between two open groups, above the topmost or below the lowest one,
are from the bottom up at most one `or`, then at most one `and`, then any number of `not`s. -/
theorem ascend_of_reached {ts : List Token} {st : Stacks} (h : Reached ts st)
    {cs : List Connective} (hlevel : Pending.Level st.pending cs) :
    ∃ ors ands nots, ors ≤ 1 ∧ ands ≤ 1 ∧
      cs.reverse = List.replicate ors Connective.or ++
        (List.replicate ands Connective.and ++ List.replicate nots Connective.not) := by
  obtain ⟨done, rest, -, hrun⟩ := h
  exact hlevel.ascend (rests_of_run hrun)

/-- Before the last token of `and not ( [B] or [C] AND not [D] and NOT not ]`, which is no
expression, there are two levels. -/
theorem ascend_of_reached_two_levels : ∃ (ts : List Token) (st : Stacks),
    ts.map (String.ofList ∘ Token.text) =
      ["and", "not", "(", "[B]", "or", "[C]", "AND", "not", "[D]", "and", "NOT", "not", "]"] ∧
    Reached ts st ∧ Pending.Level st.pending [.not, .not, .and, .or] ∧
    Pending.Level st.pending [.not, .and] ∧
    ∃ ors ands nots, ors ≤ 1 ∧ ands ≤ 1 ∧
      [.not, .not, .and, .or].reverse = List.replicate ors Connective.or ++
        (List.replicate ands Connective.and ++ List.replicate nots Connective.not) := by
  have hreached : Reached (["and", "not", "(", "[B]", "or", "[C]", "AND", "not", "[D]", "and",
      "NOT", "not", "]"].map (Token.mk ∘ String.toList))
      ⟨[.and (.atom (.field ['C'])) (.not (.atom (.field ['D']))), .atom (.field ['B'])],
        [.not, .not, .and, .or].map .connective ++ .group :: [.not, .and].map .connective⟩ :=
    ⟨Segment.ofTokens (["and", "not", "(", "[B]", "or", "[C]", "AND", "not", "[D]", "and", "NOT",
      "not"].map (Token.mk ∘ String.toList)), [.lone ⟨[']']⟩], by decide, rfl⟩
  have hupper : Pending.Level ([.not, .not, .and, .or].map .connective ++
      .group :: [.not, .and].map .connective) [.not, .not, .and, .or] :=
    ⟨[], _, rfl, .inl rfl, .inr rfl⟩
  have hlower : Pending.Level ([.not, .not, .and, .or].map .connective ++
      .group :: [.not, .and].map .connective) [.not, .and] :=
    ⟨[.not, .not, .and, .or].map .connective ++ [.group], [], rfl, .inr rfl, .inl rfl⟩
  exact ⟨_, _, rfl, hreached, hupper, hlower, ascend_of_reached hreached hupper⟩

end Stacks

end Criteria
