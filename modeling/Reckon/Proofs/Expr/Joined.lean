import Reckon.Proofs.Expr.Splitting
import Reckon.Proofs.Token.Replacing

/-!
# Words written as products

A word that is cut into names can be written out as the product of these names, with signs of
multiplication in between. The text is then read as a tree that differs in the grouping of factors,
and so has the same value, unless a quotient, a power or the lone name of a function is beside.
In `x^ab` the power has all of `ab` for its exponent, but `x^a*b` is the product of a power.

Results: `parse_starred`, `parse_starred_power` (why there must be no power in front of the word).
-/

namespace Reckon

open Reckon.Parser

/-! ## The text -/

/-- The names with signs of multiplication in between. -/
def starred (names : List String) (last : String) : List Char :=
  names.flatMap (·.toList ++ ['*']) ++ last.toList

theorem starred_cons (name : String) (names : List String) (last : String) :
    starred (name :: names) last = name.toList ++ ('*' :: starred names last) := by
  simp [starred]

section Starred

variable {names : List String} {last : String}

theorem exists_starred (lastName : IsName last) (isName : ∀ name ∈ names, IsName name) :
    ∃ c cs, starred names last = c :: cs ∧ isNameChar c = true := by
  cases names with
  | nil => exact Form.IsName.exists_chars lastName
  | cons name names =>
    obtain ⟨c, cs, shape, letter⟩ := Form.IsName.exists_chars (isName name (.head _))
    exact ⟨c, _, by rw [starred_cons, shape, List.cons_append], letter⟩

/-- The first character is that of the first name. -/
theorem head?_starred {first : String} {others : List String} (nonempty : first.toList ≠ [])
    (shape : names ++ [last] = first :: others) :
    (starred names last).head? = first.toList.head? := by
  cases names with
  | nil =>
    obtain rfl := (List.cons.inj shape).1
    rfl
  | cons name names =>
    obtain rfl := (List.cons.inj shape).1
    rw [starred_cons, List.head?_append_of_ne_nil _ nonempty]

theorem scans_starred (lastName : IsName last) (isName : ∀ name ∈ names, IsName name)
    {rest : List Char} (border : Edge.name.Borders rest) (start : Nat) :
    ∃ us, Joined names last us ∧ Scans start (starred names last) us rest := by
  induction names generalizing start with
  | nil =>
    exact ⟨_, .last (t := ⟨.identifier, last, start⟩) rfl, scans_name start lastName border⟩
  | cons name names ih =>
    obtain ⟨here, isName⟩ := List.forall_mem_cons.1 isName
    obtain ⟨us, joined, scans⟩ := ih isName (start + name.toList.length + 1)
    obtain ⟨c, cs, shape, letter⟩ := exists_starred lastName isName
    have stop : (starred names last ++ rest).head? ≠ some '=' := by
      rw [shape]
      exact fun equal => ne_of_isNameChar letter (by decide) (Option.some.inj equal)
    have word := scans_name start here
      (Edge.name.borders_mark (starred names last ++ rest) (by decide : isMark '*' = true))
    have star := scans_operator (start + name.toList.length) .times stop
    rw [starred_cons]
    exact ⟨_, .cons (t := ⟨.identifier, name, start⟩) rfl rfl joined, word.cons (star.cons scans)⟩

end Starred

/-! ## The names -/

namespace Vocabulary

variable {v : Vocabulary} {word : String}

/-- The first of the names begins like the word. -/
theorem exists_pieces (nonempty : word.toList ≠ []) :
    ∃ first others, v.pieces word = first :: others ∧
      first.toList.head? = word.toList.head? := by
  unfold pieces
  split
  next => exact ⟨word, [], rfl, rfl⟩
  next =>
    obtain ⟨c, cs, shape⟩ := List.exists_cons_of_ne_nil nonempty
    rw [shape, cut]
    split
    next n found =>
      obtain ⟨long, -, -⟩ := longestKnown?_eq_some found
      obtain ⟨n, rfl⟩ := Nat.exists_eq_add_of_le' (Nat.le_of_succ_le long)
      exact ⟨_, _, rfl, by rw [String.toList_ofList]; rfl⟩
    next => exact ⟨_, _, rfl, by simp [Char.toString]⟩

end Vocabulary

namespace Parser

/-- A word and its factors begin with the same character, and all of them are names. -/
theorem Splits.names {v : Vocabulary} {p : Place} {word : Token} {after : List Token}
    {names : List String} {last : String} (splits : Splits v p word after names last)
    (isName : IsName word.text) : IsName last ∧ (∀ name ∈ names, IsName name) ∧
      (starred names last).head? = word.text.toList.head? := by
  rcases splits.cut with ⟨-, pieces, -⟩ | ⟨front, -, -, ending, pieces, -⟩
  · have all : ∀ name ∈ names ++ [last], IsName name := fun name member =>
      v.isName_of_mem_pieces isName (pieces ▸ member)
    obtain ⟨isNames, isLast⟩ := List.forall_mem_append.1 all
    obtain ⟨first, others, shape, head⟩ := v.exists_pieces isName.1
    have firstName := v.isName_of_mem_pieces isName (shape ▸ List.mem_cons_self)
    exact ⟨isLast last (.head _), isNames,
      (head?_starred firstName.1 (pieces.symm.trans shape)).trans head⟩
  · obtain ⟨nonempty, nonempty', -, whole⟩ := v.functionEnding?_eq_some ending
    rw [List.nil_append] at whole
    have frontName : IsName front :=
      ⟨nonempty, fun c member => isName.2 c (whole ▸ List.mem_append_left _ member)⟩
    obtain ⟨first, others, shape, head⟩ := v.exists_pieces nonempty
    have firstName := v.isName_of_mem_pieces frontName (shape ▸ List.mem_cons_self)
    refine ⟨⟨nonempty', fun c member => isName.2 c (whole ▸ List.mem_append_right _ member)⟩,
      fun name member => v.isName_of_mem_pieces frontName (pieces ▸ member), ?_⟩
    have list : names ++ [last] = first :: (others ++ [last]) := by
      rw [← pieces, shape, List.cons_append]
    rw [head?_starred firstName.1 list, head, ← whole, List.head?_append_of_ne_nil _ nonempty]

/-! ## Heads of definitions -/

/-- A token that is taken with the blanks in front of it is taken in the same way in front of
something else. -/
theorem exists_of_skipBlanks {ts h rest : List Token} {t : Token}
    (shape : skipBlanks ts = t :: (h ++ rest)) :
    ∃ g, ts = g ++ rest ∧ ∀ {g'}, List.Forall₂ Token.Same g g' →
      ∃ t' h', t.Same t' ∧ List.Forall₂ Token.Same h h' ∧
        ∀ rest', skipBlanks (g' ++ rest') = t' :: (h' ++ rest') := by
  obtain ⟨blanks, whole, all⟩ := exists_blanks ts
  have own : skipBlanks (blanks ++ t :: h) = t :: h := by
    rw [skipBlanks_append, skipBlanks_blanks all]
    exact skipBlanks_cons h (isSpace_of_skipBlanks shape)
  refine ⟨blanks ++ t :: h, by rw [List.append_assoc, List.cons_append, ← shape, ← whole],
    fun same => ?_⟩
  have visible := skipBlanks_same same
  rw [own] at visible
  obtain ⟨t', h', here, others, shape'⟩ := List.forall₂_cons_left_iff.1 visible
  exact ⟨t', h', here, others, fun rest' => by rw [skipBlanks_append, shape']⟩

theorem exists_of_skipBlanks_last {ts rest : List Token} {t : Token}
    (shape : skipBlanks ts = t :: rest) :
    ∃ g, ts = g ++ rest ∧ ∀ {g'}, List.Forall₂ Token.Same g g' →
      ∃ t', t.Same t' ∧ ∀ rest', skipBlanks (g' ++ rest') = t' :: rest' := by
  obtain ⟨g, whole, moved⟩ := exists_of_skipBlanks (h := []) (by rw [List.nil_append]; exact shape)
  refine ⟨g, whole, fun same => ?_⟩
  obtain ⟨t', h', here, none, shape'⟩ := moved same
  cases none
  exact ⟨t', here, shape'⟩

/-- The parameters of a definition stand in front of another body as well. -/
theorem Parameters.moved {ts rest : List Token} {params : List String}
    (read : Parameters ts params rest) :
    ∃ g, ts = g ++ rest ∧ ∀ {g'}, List.Forall₂ Token.Same g g' → ∀ rest',
      Parameters (g' ++ rest') params rest' := by
  induction read with
  | last first named second closes third ends =>
    obtain ⟨h₂, rfl, same₂⟩ := exists_of_skipBlanks_last third
    obtain ⟨h₁, rfl, same₁⟩ := exists_of_skipBlanks second
    obtain ⟨g, rfl, same₀⟩ := exists_of_skipBlanks first
    refine ⟨g, rfl, fun same rest' => ?_⟩
    obtain ⟨name', h₁', here, rest₁, first'⟩ := same₀ same
    obtain ⟨closing', h₂', here', rest₂, second'⟩ := same₁ rest₁
    obtain ⟨equals', here'', third'⟩ := same₂ rest₂
    rw [here.text]
    exact .last (first' rest') (here.kind.symm.trans named) (second' rest')
      (here'.kind.symm.trans closes) (third' rest') (here''.kind.symm.trans ends)
  | cons first named second parts others ih =>
    obtain ⟨h₂, rfl, moved⟩ := ih
    obtain ⟨h₁, rfl, same₁⟩ := exists_of_skipBlanks second
    obtain ⟨g, rfl, same₀⟩ := exists_of_skipBlanks first
    refine ⟨g, rfl, fun same rest' => ?_⟩
    obtain ⟨name', h₁', here, rest₁, first'⟩ := same₀ same
    obtain ⟨comma', h₂', here', rest₂, second'⟩ := same₁ rest₁
    rw [here.text]
    exact .cons (first' rest') (here.kind.symm.trans named) (second' rest')
      (here'.kind.symm.trans parts) (moved rest₂ rest')

/-- The head of a definition is read in the same way in front of another body. -/
theorem definitionHead?_local {ts rest : List Token} {name : Token} {params : List String}
    (found : definitionHead? ts = some (name, params, rest)) :
    ∃ g, ts = g ++ rest ∧ ∀ {g'}, List.Forall₂ Token.Same g g' → ∀ rest', ∃ name',
      definitionHead? (g' ++ rest') = some (name', params, rest') ∧ name.text = name'.text := by
  cases head_of_definitionHead? found with
  | empty first named second opens third closes fourth ends =>
    obtain ⟨h₃, rfl, same₃⟩ := exists_of_skipBlanks_last fourth
    obtain ⟨h₂, rfl, same₂⟩ := exists_of_skipBlanks third
    obtain ⟨h₁, rfl, same₁⟩ := exists_of_skipBlanks second
    obtain ⟨g, rfl, same₀⟩ := exists_of_skipBlanks first
    refine ⟨g, rfl, fun {g'} same rest' => ?_⟩
    obtain ⟨name', h₁', here, rest₁, first'⟩ := same₀ same
    obtain ⟨opening', h₂', here', rest₂, second'⟩ := same₁ rest₁
    obtain ⟨closing', h₃', here'', rest₃, third'⟩ := same₂ rest₂
    obtain ⟨equals', here₃, fourth'⟩ := same₃ rest₃
    have head : Head (g' ++ rest') name' [] rest' :=
      .empty (first' rest') (here.kind.symm.trans named) (second' rest')
        (here'.kind.symm.trans opens) (third' rest') (here''.kind.symm.trans closes)
        (fourth' rest') (here₃.kind.symm.trans ends)
    exact ⟨name', head.definitionHead?_eq, here.text⟩
  | parameters first named second opens read =>
    obtain ⟨h₂, rfl, moved⟩ := read.moved
    obtain ⟨h₁, rfl, same₁⟩ := exists_of_skipBlanks second
    obtain ⟨g, rfl, same₀⟩ := exists_of_skipBlanks first
    refine ⟨g, rfl, fun {g'} same rest' => ?_⟩
    obtain ⟨name', h₁', here, rest₁, first'⟩ := same₀ same
    obtain ⟨opening', h₂', here', rest₂, second'⟩ := same₁ rest₁
    have head : Head (g' ++ rest') name' params rest' :=
      .parameters (first' rest') (here.kind.symm.trans named) (second' rest')
        (here'.kind.symm.trans opens) (moved rest₂ rest')
    exact ⟨name', head.definitionHead?_eq, here.text⟩

/-! ## Whole texts -/

/-- What a text has for an expression, without the head of a definition, and the vocabulary that it
is read with. -/
def bodyOf (v : Vocabulary) (ts : List Token) : Vocabulary × List Token :=
  match definitionHead? ts with
  | some (_, params, rest) => (v.extend params, rest)
  | none => (v, ts)

/-- How a text that begins like a definition is read. -/
theorem parse_definition_iff {v : Vocabulary} {source : String} {tokens rest : List Token}
    {name : Token} {params : List String} {e : Expr} (scanned : scan source = .ok tokens)
    (head : definitionHead? tokens = some (name, params, rest)) :
    parse v source = .ok e ↔ ∃ body st,
      Reads (expression (v.extend params) source.length false 0 ⟨none, rest⟩) body st ∧
      next st = none ∧ hasDuplicate params = false ∧
      e = .definition name.text params body (some (Text.trim source)) := by
  have visible : (skipBlanks tokens).isEmpty = false := by
    unfold definitionHead? at head
    split at head
    next shape => rw [shape, List.isEmpty_cons]
    next => cases head
  rw [parse, scanned]
  dsimp only
  rw [ofTokens, visible, if_neg Bool.false_ne_true, head]
  dsimp only
  constructor
  · intro done
    split at done
    next => cases done
    next read =>
      split at done
      next => cases done
      next last =>
        cases done
        unfold definition at read
        split at read
        next => cases read
        next =>
          split at read
          next => cases read
          next body st fewer first =>
            split at read
            next => cases read
            next several =>
              cases read
              exact ⟨body, _, ⟨fewer, first⟩, last, Bool.eq_false_iff.2 several, rfl⟩
  · rintro ⟨body, st, ⟨fewer, first⟩, last, distinct, rfl⟩
    obtain ⟨t, st₁, found, -⟩ := exists_next_of_expression first
    rw [definition, (shape_of_next found).2, if_neg (by rw [List.isEmpty_cons]; decide), first]
    dsimp only
    rw [distinct, if_neg Bool.false_ne_true]
    dsimp only
    rw [last]

section Texts

variable {v : Vocabulary} {word : Token} {after us after' : List Token} {names : List String}
  {last : String}

theorem joins_append {front front' : List Token} {p : Place}
    (same : List.Forall₂ Token.Same front front')
    (splits : Splits v (front.foldl Place.after p) word after names last)
    (joined : Joined names last us) (rest : List.Forall₂ Token.Same after after') :
    Joins v p (front ++ word :: after) (front' ++ (us ++ after')) := by
  induction same generalizing p with
  | nil =>
    rw [List.nil_append, List.nil_append]
    exact .word splits joined rest
  | cons here _ ih => exact .cons here (ih splits)

theorem forall₂_append_left {head front ts : List Token}
    (same : List.Forall₂ Token.Same (head ++ front) ts) :
    ∃ head' front', ts = head' ++ front' ∧ List.Forall₂ Token.Same head head' ∧
      List.Forall₂ Token.Same front front' := by
  induction head generalizing ts with
  | nil => exact ⟨[], ts, rfl, .nil, same⟩
  | cons t head ih =>
    cases same with
    | cons here rest =>
      obtain ⟨head', front', rfl, same, same'⟩ := ih rest
      exact ⟨_ :: head', front', rfl, .cons here same, same'⟩

/-- The expression of a text is read up to its end, whether a word is in one piece or not. -/
theorem exists_reads_body {stop : Nat} (stop' : Nat) {ts ts' : List Token} {e : Expr} {st : State}
    (joins : Joins v (Place.of []) ts ts')
    (read : Reads (expression v stop false 0 ⟨none, ts⟩) e st) (ends : next st = none) :
    ∃ e' st', Reads (expression v stop' false 0 ⟨none, ts'⟩) e' st' ∧ next st' = none ∧
      e.Regrouped e' := by
  have start : State.Joins v (Place.of []) ⟨none, ts⟩ ⟨none, ts'⟩ := ⟨joins, rfl⟩
  obtain ⟨e', st', read', outcome⟩ := start.expression stop' rfl read
  obtain ⟨alike, left⟩ := outcome.settled fun tight => absurd tight.1 (by decide)
  have nothing := left.rest.skipBlanks
  rw [skipBlanks_of_next ends] at nothing
  rcases nothing.cases with
    ⟨-, none⟩ | ⟨_, _, _, _, some_token, -⟩ | ⟨_, _, _, _, _, _, some_token, -⟩
  · exact ⟨e', st', read', next_eq_none none, alike⟩
  · cases some_token
  · cases some_token

end Texts

end Parser

/-- A word can be written out as the product of the names that it is cut into, or as a product that
ends in a call, where neither a quotient nor a power is right in front of it, apart from signs, and
no power is behind. The text is read as the same tree up to the grouping of factors, so it has the
same value, whatever the variables and the functions mean. -/
theorem parse_starred {v w : Vocabulary} {source : String} {e : Expr}
    {head front after : List Token} {word : Token} {names : List String} {last : String}
    (scanned : scan source = .ok (head ++ front ++ word :: after))
    (body : bodyOf v (head ++ front ++ word :: after) = (w, front ++ word :: after))
    (splits : Splits w (Place.of front) word after names last) (done : parse v source = .ok e) :
    ∃ e', parse v (String.ofList (Token.texts (head ++ front) ++
        (starred names last ++ Token.texts after))) = .ok e' ∧
      e.unsourced.Regrouped e'.unsourced ∧
      ∀ (K : Type) [Ring K] [Algebra ℚ K] (I : Interpretation K) (ρ : String → K),
        Expr.values I ρ e.valueParts = Expr.values I ρ e'.valueParts := by
  have isName : IsName word.text := isName_scanFrom scanned word (by simp) splits.kind
  obtain ⟨lastName, isNames, first⟩ := splits.names isName
  have border : Edge.name.Borders (Token.texts after) := by
    have begins := begins_of_lexeme? (lexeme?_of_scanFrom scanned).2
    rw [splits.kind] at begins
    exact (stop_of_takeWhile begins).2
  obtain ⟨c, cs, shape, -⟩ := exists_starred lastName isNames
  obtain ⟨before', us, after', scanned', same, joined, sameAfter⟩ :=
    scan_replaced scanned first (shape ▸ List.cons_ne_nil c cs)
      (scans_starred lastName isNames border)
  obtain ⟨head', front', rfl, sameHead, sameFront⟩ := forall₂_append_left same
  have joins : Joins w (Place.of []) (front ++ word :: after) (front' ++ (us ++ after')) :=
    joins_append sameFront splits joined sameAfter
  rw [bodyOf] at body
  rcases exists_of_parse done with ⟨tokens, again, others⟩
  obtain rfl := Except.ok.inj (scanned.symm.trans again)
  rcases others with ⟨-, blank⟩ | ⟨name, params, -, -, rest, -, -, found, -⟩ |
    ⟨-, notFound, st, read, ends⟩
  · obtain ⟨blanks, whole, all⟩ := exists_blanks (head ++ front ++ word :: after)
    rw [List.isEmpty_iff.1 blank, List.append_nil] at whole
    have space := all word (whole ▸ by simp)
    rw [isSpace_of_identifier splits.kind] at space
    cases space
  · rw [found] at body
    obtain ⟨rfl, rfl⟩ := Prod.mk.inj body
    obtain ⟨tree, st, read, ends, distinct, rfl⟩ := (parse_definition_iff scanned found).1 done
    obtain ⟨g, whole, moved⟩ := definitionHead?_local found
    rw [List.append_assoc] at whole
    obtain rfl := List.append_cancel_right whole
    obtain ⟨name', found', text⟩ := moved sameHead (front' ++ (us ++ after'))
    rw [← List.append_assoc] at found'
    obtain ⟨tree', st', read', ends', alike⟩ := exists_reads_body _ joins read ends
    refine ⟨_, (parse_definition_iff scanned' found').2 ⟨tree', st', read', ends', distinct, rfl⟩,
      ?_, fun K _ _ I ρ => alike.values_valueParts I ρ⟩
    rw [Expr.unsourced, Expr.unsourced, text, Expr.Regrouped, Expr.regrouped, alike, Expr.regrouped]
  · rw [notFound] at body
    obtain ⟨rfl, whole⟩ := Prod.mk.inj body
    rw [List.append_assoc, List.append_left_eq_self] at whole
    obtain rfl := whole
    cases sameHead
    obtain ⟨e', st', read', ends', alike⟩ := exists_reads_body _ joins ⟨_, read⟩ ends
    exact ⟨e', parse_of_reads scanned' read' ends', alike.unsourced,
      fun K _ _ I ρ => alike.values_valueParts I ρ⟩

/-- A product that ends in a call, behind a quotient and a difference. -/
theorem parse_starred_call : ∃ e', parse Context.initial.vocabulary "2/z-x*sin(y)" = .ok e' ∧
    ∃ e, parse Context.initial.vocabulary "2/z-xsin(y)" = .ok e ∧
      e.unsourced.Regrouped e'.unsourced ∧
      ∀ (K : Type) [Ring K] [Algebra ℚ K] (I : Interpretation K) (ρ : String → K),
        Expr.values I ρ e.valueParts = Expr.values I ρ e'.valueParts := by
  have scanned : scan "2/z-xsin(y)" = .ok ([] ++ [⟨.number 2, "2", 0⟩, ⟨.operator .divide, "/", 1⟩,
      ⟨.identifier, "z", 2⟩, ⟨.operator .minus, "-", 3⟩] ++ ⟨.identifier, "xsin", 4⟩ ::
      [⟨.openParen, "(", 8⟩, ⟨.identifier, "y", 9⟩, ⟨.closeParen, ")", 10⟩]) := by
    decide +kernel
  have splits : Splits Context.initial.vocabulary (Place.of [⟨.number 2, "2", 0⟩,
      ⟨.operator .divide, "/", 1⟩, ⟨.identifier, "z", 2⟩, ⟨.operator .minus, "-", 3⟩])
      ⟨.identifier, "xsin", 4⟩ [⟨.openParen, "(", 8⟩, ⟨.identifier, "y", 9⟩,
        ⟨.closeParen, ")", 10⟩] ["x"] "sin" :=
    ⟨rfl, fun _ => rfl, by decide +kernel, .inr ⟨"x", by unfold Apart; decide, by decide +kernel,
      by decide +kernel, by decide +kernel, by unfold Unpowered; decide⟩⟩
  have reads : (parse Context.initial.vocabulary "2/z-xsin(y)").toOption.isSome = true := by
    decide +kernel
  cases done : parse Context.initial.vocabulary "2/z-xsin(y)" with
  | error fault =>
    rw [done] at reads
    cases reads
  | ok e =>
    obtain ⟨e', done', alike⟩ := parse_starred scanned rfl splits done
    exact ⟨e', done', e, rfl, alike⟩

/-- Where `x` is two, `a` is one and every other variable is three. -/
def twoOneThree (name : String) : ℚ :=
  if name = "x" then 2 else if name = "a" then 1 else 3

/-- Behind a power, all of the word is the exponent, but of its factors only the first one is. -/
theorem parse_starred_power :
    Context.initial.vocabulary.pieces "ab" = ["a", "b"] ∧ starred ["a"] "b" = "a*b".toList ∧
    ∃ e e', parse Context.initial.vocabulary "x^ab" = .ok e ∧
      parse Context.initial.vocabulary "x^a*b" = .ok e' ∧
      e.value .rational twoOneThree = 8 ∧ e'.value .rational twoOneThree = 6 := by
  have word : ∀ name ∈ ["x", "a", "b", "ab"], IsName name ∧
      (Context.initial.vocabulary.isFunction name = true →
        Context.initial.vocabulary.isKnown name = true) := by
    decide +kernel
  have power : ∀ name ∈ ["x", "a", "b", "ab"],
      (Form.binary .power false (.word "x") (.word name)).Readable Context.initial.vocabulary :=
    fun name member => ⟨word "x" (.head _), word name member, by decide,
      (by decide : rightBinding .power ≤ Binding.atom), nofun⟩
  have product : (Form.binary .times false (.binary .power false (.word "x") (.word "a"))
      (.word "b")).Readable Context.initial.vocabulary :=
    ⟨power "a" (by decide), word "b" (by decide), by decide, by decide, nofun⟩
  refine ⟨by decide +kernel, rfl, _, _, Form.parse_read (power "ab" (by decide)),
    Form.parse_read product, ?_, ?_⟩
  · decide +kernel
  · decide +kernel

end Reckon
