import Reckon.Proofs.Expr.Reading

/-!
# Heads of definitions

`Parser.Parameters` and `Parser.Head` say which tokens make up the head of a definition, with any
blanks in front of each of them. The readers find exactly these heads
(`definitionHead?_eq_some_iff`), so what is to be known of a head is proved by induction on its
parameters, without the fuel of the reader.

Results: `definitionHead?_eq_some_iff`, `mem_of_definitionHead?`, `definitionHead?_eq_none`.
-/

namespace Reckon

namespace Parser

/-- Names with commas between them, a closing parenthesis and an equals sign. -/
inductive Parameters : List Token → List String → List Token → Prop
  | last {ts ts₁ ts₂ rest : List Token} {name closing equals : Token}
      (first : skipBlanks ts = name :: ts₁) (named : name.kind = .identifier)
      (second : skipBlanks ts₁ = closing :: ts₂) (closes : closing.kind = .closeParen)
      (third : skipBlanks ts₂ = equals :: rest) (ends : equals.kind = .equals) :
      Parameters ts [name.text] rest
  | cons {ts ts₁ ts₂ rest : List Token} {name comma : Token} {names : List String}
      (first : skipBlanks ts = name :: ts₁) (named : name.kind = .identifier)
      (second : skipBlanks ts₁ = comma :: ts₂) (parts : comma.kind = .comma)
      (others : Parameters ts₂ names rest) : Parameters ts (name.text :: names) rest

/-- A name, its parameters in parentheses and an equals sign. -/
inductive Head (ts : List Token) (name : Token) : List String → List Token → Prop
  | empty {ts₁ ts₂ ts₃ rest : List Token} {opening closing equals : Token}
      (first : skipBlanks ts = name :: ts₁) (named : name.kind = .identifier)
      (second : skipBlanks ts₁ = opening :: ts₂) (opens : opening.kind = .openParen)
      (third : skipBlanks ts₂ = closing :: ts₃) (closes : closing.kind = .closeParen)
      (fourth : skipBlanks ts₃ = equals :: rest) (ends : equals.kind = .equals) :
      Head ts name [] rest
  | parameters {ts₁ ts₂ rest : List Token} {opening : Token} {params : List String}
      (first : skipBlanks ts = name :: ts₁) (named : name.kind = .identifier)
      (second : skipBlanks ts₁ = opening :: ts₂) (opens : opening.kind = .openParen)
      (read : Parameters ts₂ params rest) : Head ts name params rest

variable {ts ts' rest : List Token} {t name : Token} {params : List String}

/-- Blanks in front do not count. -/
theorem Parameters.skipBlanks_iff :
    Parameters (skipBlanks ts) params rest ↔ Parameters ts params rest := by
  constructor
  · rintro (⟨first, named, second, closes, third, ends⟩ | ⟨first, named, second, parts, others⟩)
    · exact .last ((skipBlanks_skipBlanks ts).symm.trans first) named second closes third ends
    · exact .cons ((skipBlanks_skipBlanks ts).symm.trans first) named second parts others
  · rintro (⟨first, named, second, closes, third, ends⟩ | ⟨first, named, second, parts, others⟩)
    · exact .last ((skipBlanks_skipBlanks ts).trans first) named second closes third ends
    · exact .cons ((skipBlanks_skipBlanks ts).trans first) named second parts others

/-! ## What the readers find -/

theorem parameters_of_parameters? {fuel : Nat} (found : parameters? fuel ts = some (params, rest)) :
    Parameters ts params rest := by
  induction fuel generalizing ts params with
  | zero => cases found
  | succ fuel ih =>
    unfold parameters? at found
    split at found
    next first =>
      split at found
      next second =>
        obtain ⟨⟨names, rest'⟩, more, shape⟩ := Option.map_eq_some_iff.1 found
        cases shape
        exact .cons first rfl second rfl (ih more)
      next second =>
        split at found
        next third =>
          cases found
          exact .last first rfl second rfl third rfl
        next => cases found
      next => cases found
    next => cases found

/-- Fuel for every token is enough. -/
theorem Parameters.parameters?_eq (read : Parameters ts params rest) {fuel : Nat}
    (enough : ts.length ≤ fuel) : parameters? fuel ts = some (params, rest) := by
  induction read generalizing fuel with
  | @last ts ts₁ ts₂ rest name closing equals first named second closes third ends =>
    have fewer := length_lt_of_skipBlanks first
    obtain ⟨fuel, rfl⟩ : ∃ k, fuel = k + 1 := ⟨fuel - 1, by omega⟩
    have first : skipBlanks ts = ⟨.identifier, name.text, name.start⟩ :: ts₁ := named ▸ first
    have second : skipBlanks ts₁ = ⟨.closeParen, closing.text, closing.start⟩ :: ts₂ :=
      closes ▸ second
    have third : skipBlanks ts₂ = ⟨.equals, equals.text, equals.start⟩ :: rest := ends ▸ third
    rw [parameters?, first]
    dsimp only
    rw [second]
    dsimp only
    rw [third]
  | @cons ts ts₁ ts₂ rest name comma names first named second parts others ih =>
    have fewer := length_lt_of_skipBlanks first
    have fewer' := length_lt_of_skipBlanks second
    obtain ⟨fuel, rfl⟩ : ∃ k, fuel = k + 1 := ⟨fuel - 1, by omega⟩
    have first : skipBlanks ts = ⟨.identifier, name.text, name.start⟩ :: ts₁ := named ▸ first
    have second : skipBlanks ts₁ = ⟨.comma, comma.text, comma.start⟩ :: ts₂ := parts ▸ second
    rw [parameters?, first]
    dsimp only
    rw [second]
    dsimp only
    rw [ih (by omega)]
    rfl

theorem head_of_definitionHead? (found : definitionHead? ts = some (name, params, rest)) :
    Head ts name params rest := by
  unfold definitionHead? at found
  split at found
  next first =>
    split at found
    next second =>
      split at found
      next third =>
        split at found
        next fourth =>
          cases found
          exact .empty first rfl second rfl third rfl fourth rfl
        next => cases found
      next =>
        obtain ⟨⟨names, rest'⟩, more, shape⟩ := Option.map_eq_some_iff.1 found
        cases shape
        exact .parameters first rfl second rfl
          (Parameters.skipBlanks_iff.1 (parameters_of_parameters? more))
    next => cases found
  next => cases found

theorem Head.definitionHead?_eq (head : Head ts name params rest) :
    definitionHead? ts = some (name, params, rest) := by
  cases head with
  | @empty ts₁ ts₂ ts₃ _ opening closing equals first named second opens third closes fourth ends =>
    have first : skipBlanks ts = ⟨.identifier, name.text, name.start⟩ :: ts₁ := named ▸ first
    have second : skipBlanks ts₁ = ⟨.openParen, opening.text, opening.start⟩ :: ts₂ :=
      opens ▸ second
    have third : skipBlanks ts₂ = ⟨.closeParen, closing.text, closing.start⟩ :: ts₃ :=
      closes ▸ third
    have fourth : skipBlanks ts₃ = ⟨.equals, equals.text, equals.start⟩ :: rest := ends ▸ fourth
    rw [definitionHead?, first]
    dsimp only
    rw [second]
    dsimp only
    rw [third]
    dsimp only
    rw [fourth, ← named]
  | @parameters ts₁ ts₂ _ opening _ first named second opens read =>
    have first : skipBlanks ts = ⟨.identifier, name.text, name.start⟩ :: ts₁ := named ▸ first
    have second : skipBlanks ts₁ = ⟨.openParen, opening.text, opening.start⟩ :: ts₂ :=
      opens ▸ second
    rw [definitionHead?, first]
    dsimp only
    rw [second]
    dsimp only
    split
    next closes =>
      -- parameters begin with a name
      rcases read with ⟨begins, named, -⟩ | ⟨begins, named, -⟩ <;>
      · rw [closes] at begins
        obtain ⟨rfl, -⟩ := List.cons.inj begins
        cases named
    next =>
      rw [(Parameters.skipBlanks_iff.2 read).parameters?_eq (Nat.le_refl _), ← named]
      rfl

theorem definitionHead?_eq_some_iff :
    definitionHead? ts = some (name, params, rest) ↔ Head ts name params rest :=
  ⟨head_of_definitionHead?, Head.definitionHead?_eq⟩

/-! ## The tokens of a head -/

/-- The parameters and the equals sign are tokens, and so is all that follows. -/
theorem Parameters.mem (read : Parameters ts params rest) :
    (∀ x ∈ params, ∃ t ∈ ts, t.kind = .identifier ∧ t.text = x) ∧
      (∃ t ∈ ts, t.kind = .equals) ∧ rest ⊆ ts := by
  induction read with
  | last first named second closes third ends =>
    obtain ⟨here, later⟩ := mem_of_skipBlanks first
    have later' := List.Subset.trans (mem_of_skipBlanks second).2 later
    obtain ⟨equals, after⟩ := mem_of_skipBlanks third
    exact ⟨List.forall_mem_singleton.2 ⟨_, here, named, rfl⟩, ⟨_, later' equals, ends⟩,
      List.Subset.trans after later'⟩
  | cons first named second parts others ih =>
    obtain ⟨here, later⟩ := mem_of_skipBlanks first
    have later' := List.Subset.trans (mem_of_skipBlanks second).2 later
    obtain ⟨names, ⟨equals, member, ends⟩, after⟩ := ih
    refine ⟨List.forall_mem_cons.2 ⟨⟨_, here, named, rfl⟩, fun x inside => ?_⟩,
      ⟨equals, later' member, ends⟩, List.Subset.trans after later'⟩
    obtain ⟨t, member, rest⟩ := names x inside
    exact ⟨t, later' member, rest⟩

/-- The name that is defined, the parameters and the equals sign stand in the text, and so does
the body. -/
theorem Head.mem (head : Head ts name params rest) :
    (name ∈ ts ∧ name.kind = .identifier) ∧
      (∀ x ∈ params, ∃ t ∈ ts, t.kind = .identifier ∧ t.text = x) ∧
      (∃ t ∈ ts, t.kind = .equals) ∧ rest ⊆ ts := by
  cases head with
  | empty first named second opens third closes fourth ends =>
    obtain ⟨here, later⟩ := mem_of_skipBlanks first
    have later' := List.Subset.trans (mem_of_skipBlanks second).2 later
    have last := List.Subset.trans (mem_of_skipBlanks third).2 later'
    obtain ⟨equals, after⟩ := mem_of_skipBlanks fourth
    exact ⟨⟨here, named⟩, fun _ member => absurd member List.not_mem_nil,
      ⟨_, last equals, ends⟩, List.Subset.trans after last⟩
  | parameters first named second opens read =>
    obtain ⟨here, later⟩ := mem_of_skipBlanks first
    have later' := List.Subset.trans (mem_of_skipBlanks second).2 later
    obtain ⟨names, ⟨equals, member, ends⟩, after⟩ := read.mem
    refine ⟨⟨here, named⟩, fun x inside => ?_, ⟨equals, later' member, ends⟩,
      List.Subset.trans after later'⟩
    obtain ⟨t, member, rest⟩ := names x inside
    exact ⟨t, later' member, rest⟩

theorem Parameters.length_lt (read : Parameters ts params rest) : rest.length < ts.length := by
  induction read with
  | last first _ second _ third _ =>
    have fewer := length_lt_of_skipBlanks first
    have fewer' := length_lt_of_skipBlanks second
    have fewer'' := length_lt_of_skipBlanks third
    omega
  | cons first _ second _ _ ih =>
    have fewer := length_lt_of_skipBlanks first
    have fewer' := length_lt_of_skipBlanks second
    omega

theorem Head.length_lt (head : Head ts name params rest) : rest.length < ts.length := by
  cases head with
  | empty first _ second _ third _ fourth _ =>
    have fewer := length_lt_of_skipBlanks first
    have fewer' := length_lt_of_skipBlanks second
    have fewer'' := length_lt_of_skipBlanks third
    have fewer''' := length_lt_of_skipBlanks fourth
    omega
  | parameters first _ second _ read =>
    have fewer := length_lt_of_skipBlanks first
    have fewer' := length_lt_of_skipBlanks second
    have fewer'' := read.length_lt
    omega

theorem mem_of_definitionHead? (found : definitionHead? ts = some (name, params, rest)) :
    name ∈ ts ∧ rest ⊆ ts :=
  have inside := (head_of_definitionHead? found).mem
  ⟨inside.1.1, inside.2.2.2⟩

/-- None of the tokens is an equals sign. -/
def NoEquals (ts : List Token) : Prop :=
  ∀ t ∈ ts, t.kind ≠ .equals

/-- Without an equals sign there is no definition. -/
theorem definitionHead?_eq_none (plain : NoEquals ts) : definitionHead? ts = none := by
  cases found : definitionHead? ts with
  | none => rfl
  | some head =>
    obtain ⟨name, params, rest⟩ := head
    obtain ⟨-, -, ⟨equals, member, ends⟩, -⟩ := (head_of_definitionHead? found).mem
    exact absurd ends (plain equals member)

end Parser

end Reckon
