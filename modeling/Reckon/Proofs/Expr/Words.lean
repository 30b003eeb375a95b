import Mathlib.Data.List.TakeWhile
import Reckon.Proofs.Expr.Head
import Reckon.Proofs.Expr.Trees
import Reckon.Proofs.Form
import Reckon.Proofs.Frame.Simplify
import Reckon.Proofs.Token

/-!
# The names that a text gives

The reader cuts a word into known names and single characters, and calls only what it takes for a
function. So every name in a tree that was read is one that would be read again as it stands
(`hasWords_parse`), and simplifying brings in no others (`hasWords_simplify`). Whatever the
vocabulary is, its variables and what its definitions introduce are names (`hasNames_parse`).
-/

namespace Reckon

namespace Vocabulary

variable {v : Vocabulary}

/-- The name is read as a whole. -/
def IsWord (v : Vocabulary) (name : String) : Prop :=
  IsName name ∧ (v.isKnown name = true ∨ name.toList.length = 1) ∧
    (v.isFunction name = true → v.isKnown name = true)

/-- In front of arguments, the name is read as the name of a call. -/
def IsCallee (v : Vocabulary) (name : String) : Prop :=
  IsName name ∧ v.isCalled name = true ∧ ∀ args, v.called name args = .call name args

/-! ## Cutting words -/

theorem longestKnown?_eq_some {cs : List Char} {n k : Nat}
    (found : v.longestKnown? cs n = some k) :
    2 ≤ k ∧ k ≤ cs.length ∧ v.isKnown (String.ofList (cs.take k)) = true := by
  induction n with
  | zero => cases found
  | succ n ih =>
    unfold longestKnown? at found
    split at found
    next fits =>
      obtain rfl := Option.some.inj found
      simp only [Bool.and_eq_true, decide_eq_true_eq] at fits
      exact ⟨fits.1.2, fits.1.1, fits.2⟩
    next => exact ih found

/-- A word is cut into known names and single characters. -/
theorem forall_mem_cut (v : Vocabulary) (cs : List Char) :
    ∀ name ∈ v.cut cs, (v.isKnown name = true ∨ name.toList.length = 1) ∧ name.toList ≠ [] ∧
      ∀ c ∈ name.toList, c ∈ cs := by
  induction cs using Vocabulary.cut.induct v with
  | case1 =>
    rw [cut]
    exact fun _ member => absurd member List.not_mem_nil
  | case2 c rest n found ih =>
    obtain ⟨long, fits, known⟩ := longestKnown?_eq_some found
    rw [cut, found]
    refine List.forall_mem_cons.2 ⟨⟨Or.inl known, ?_, ?_⟩, fun name member => ?_⟩
    · rw [String.toList_ofList, ← List.length_pos_iff, List.length_take]
      omega
    · rw [String.toList_ofList]
      exact fun d inside => List.mem_of_mem_take inside
    · obtain ⟨whole, nonempty, inside⟩ := ih name member
      exact ⟨whole, nonempty, fun d here => .tail _ (List.mem_of_mem_drop (inside d here))⟩
  | case3 c rest none ih =>
    have single : c.toString.toList = [c] := by simp [Char.toString]
    rw [cut, none]
    refine List.forall_mem_cons.2 ⟨?_, fun name member => ?_⟩
    · rw [single]
      exact ⟨Or.inr rfl, List.cons_ne_nil c [], fun d here => List.mem_singleton.1 here ▸ .head _⟩
    · obtain ⟨whole, nonempty, inside⟩ := ih name member
      exact ⟨whole, nonempty, fun d here => .tail _ (inside d here)⟩

theorem cut_ne_nil {cs : List Char} (nonempty : cs ≠ []) : v.cut cs ≠ [] := by
  cases cs with
  | nil => exact absurd rfl nonempty
  | cons c rest =>
    rw [cut]
    split <;> exact List.cons_ne_nil _ _

theorem pieces_ne_nil {word : String} (isName : IsName word) : v.pieces word ≠ [] := by
  unfold pieces
  split
  · exact List.cons_ne_nil _ _
  · exact cut_ne_nil isName.1

/-- A name that is not known falls into known names and single letters. -/
theorem forall_mem_pieces {word : String} (isName : IsName word) :
    ∀ name ∈ v.pieces word, IsName name ∧ (v.isKnown name = true ∨ name.toList.length = 1) := by
  unfold pieces
  split
  next known => exact List.forall_mem_singleton.2 ⟨isName, Or.inl known⟩
  next =>
    intro name member
    obtain ⟨whole, nonempty, inside⟩ := v.forall_mem_cut _ name member
    exact ⟨⟨nonempty, fun c here => isName.2 c (inside c here)⟩, whole⟩

theorem isName_of_mem_pieces {word name : String} (isName : IsName word)
    (member : name ∈ v.pieces word) : IsName name :=
  (forall_mem_pieces isName name member).1

/-- A proper ending that is a function, and what stands in front of it. -/
theorem functionEnding?_eq_some {front back : List Char} {first second : String}
    (found : v.functionEnding? front back = some (first, second)) :
    first.toList ≠ [] ∧ second.toList ≠ [] ∧ v.isFunction second = true ∧
      first.toList ++ second.toList = front ++ back := by
  induction back generalizing front with
  | nil => cases found
  | cons c back ih =>
    unfold functionEnding? at found
    split at found
    next ends =>
      obtain ⟨rfl, rfl⟩ := Prod.mk.inj (Option.some.inj found)
      simp only [Bool.and_eq_true, Bool.not_eq_true', List.isEmpty_eq_false_iff] at ends
      simpa using ends
    next =>
      obtain ⟨nonempty, nonempty', isFunction, whole⟩ := ih found
      refine ⟨nonempty, nonempty', isFunction, ?_⟩
      rw [whole, List.append_assoc]
      rfl

-- a letter is cut off whatever it is, but it is no variable if it is the name of a function
variable (letters : ∀ name : String, name.toList.length = 1 → v.isFunction name = false)

include letters

theorem isWord_of_mem_pieces {word name : String} (isName : IsName word)
    (member : name ∈ v.pieces word) : v.IsWord name := by
  obtain ⟨isName, whole⟩ := forall_mem_pieces isName name member
  refine ⟨isName, whole, fun isFunction => whole.resolve_right fun single => ?_⟩
  rw [letters _ single] at isFunction
  cases isFunction

end Vocabulary

namespace Expr

mutual

/-- Every variable is a whole name and every call is one by name. -/
def HasWords (v : Vocabulary) : Expr → Prop
  | .var name => v.IsWord name
  | .unary _ e => e.HasWords v
  | .binary _ _ l r => l.HasWords v ∧ r.HasWords v
  | .call name args => v.IsCallee name ∧ AllHaveWords v args
  | .literal .. | .definition .. | .vector _ | .matrix _ | .empty => True

/-- `HasWords` of several trees. -/
def AllHaveWords (v : Vocabulary) : List Expr → Prop
  | [] => True
  | e :: es => e.HasWords v ∧ AllHaveWords v es

end

variable {v : Vocabulary}

theorem allHaveWords_iff {es : List Expr} : AllHaveWords v es ↔ ∀ e ∈ es, e.HasWords v := by
  induction es with
  | nil => simp [AllHaveWords]
  | cons e es ih => rw [AllHaveWords, ih, List.forall_mem_cons]

/-! ## Reading -/

section Reading

variable (letters : ∀ name : String, name.toList.length = 1 → v.isFunction name = false)

include letters

theorem hasWords_productOfNames {word : String} (isName : IsName word) :
    (v.productOfNames word).HasWords v := by
  refine v.holds_productOfNames ?_ ?_ And.intro
  · exact fun none => absurd none (Vocabulary.pieces_ne_nil isName)
  · exact fun _ member => Vocabulary.isWord_of_mem_pieces letters isName member

theorem hasWords_called {word : String} {args : List Expr} (isName : IsName word)
    (isCalled : v.isCalled word = true) (all : ∀ e ∈ args, e.HasWords v) :
    (v.called word args).HasWords v := by
  have all := allHaveWords_iff.2 all
  unfold Vocabulary.called
  split
  next isFunction =>
    exact ⟨⟨isName, isCalled, fun args => by rw [Vocabulary.called, if_pos isFunction]⟩, all⟩
  next isFunction =>
    split
    next front function ending =>
      -- the parts of a name are names
      obtain ⟨nonempty, nonempty', callable, whole⟩ := Vocabulary.functionEnding?_eq_some ending
      rw [List.nil_append] at whole
      have frontName : IsName front :=
        ⟨nonempty, fun c here => isName.2 c (whole ▸ List.mem_append_left _ here)⟩
      have functionName : IsName function :=
        ⟨nonempty', fun c here => isName.2 c (whole ▸ List.mem_append_right _ here)⟩
      exact ⟨hasWords_productOfNames letters frontName,
        ⟨functionName, by rw [Vocabulary.isCalled, callable, Bool.true_or, Bool.true_or],
          fun args => by rw [Vocabulary.called, if_pos callable]⟩, all⟩
    next ending =>
      exact ⟨⟨isName, isCalled, fun args => by
        rw [Vocabulary.called, if_neg isFunction, ending]⟩, all⟩

theorem builds_hasWords :
    Parser.Builds v (fun t => t.kind = .identifier → IsName t.text) (HasWords v) where
  number _ _ := trivial
  unary operand := operand
  binary left right := ⟨left, right⟩
  word isName kind _ := hasWords_productOfNames letters (isName kind)
  called isName kind isCalled all := hasWords_called letters (isName kind) isCalled all
  vector _ := trivial
  matrix _ _ := trivial

end Reading

end Expr

/-- Identifiers are names. -/
theorem isName_of_lexeme? {cs text : List Char} (found : lexeme? cs = some (.identifier, text)) :
    IsName (String.ofList text) := by
  obtain ⟨c, rest, rfl, lexeme⟩ := exists_lexeme found
  cases lexeme with
  | identifier _ _ letter =>
    rw [IsName, String.toList_ofList]
    refine ⟨List.cons_ne_nil _ _, List.forall_mem_cons.2 ⟨letter, fun d member => ?_⟩⟩
    exact List.mem_takeWhile_imp member
  | mark _ _ _ _ mark => exact absurd (mem_of_punctuation? mark) (by simp)

theorem isName_scanFrom {start : Nat} {cs : List Char} {tokens : List Token}
    (done : scanFrom start cs = .ok tokens) :
    ∀ t ∈ tokens, t.kind = .identifier → IsName t.text := by
  intro t member identifier
  obtain ⟨_, _, -, -, found⟩ := exists_lexeme_of_mem done member
  rw [identifier] at found
  have name := isName_of_lexeme? found
  rwa [String.ofList_toList] at name

namespace Expr

variable {v : Vocabulary}

/-- Every name in a tree that was read would be read again as it stands. -/
theorem hasWords_parse
    (letters : ∀ name : String, name.toList.length = 1 → v.isFunction name = false)
    {source : String} {e : Expr} (done : parse v source = .ok e) : e.HasWords v := by
  obtain ⟨tokens, scanned, ⟨rfl, -⟩ | ⟨_, _, _, _, _, _, rfl, -, -⟩ | ⟨-, -, st, read, -⟩⟩ :=
    exists_of_parse done
  · trivial
  · trivial
  · rw [scan] at scanned
    exact ((builds_hasWords letters).expression (isName_scanFrom scanned) read).1

/-! ## Simplifying -/

/-- Names inside of definitions are not looked at. -/
theorem compositional_hasWords (v : Vocabulary) :
    Compositional fun (outside : Bool) e => outside = true → e.HasWords v where
  number _ _ _ := trivial
  unary := Iff.rfl
  binary := forall_and
  call words := by
    constructor
    · exact fun e member outside => allHaveWords_iff.1 (words outside).2 e member
    · exact fun all outside =>
        ⟨(words outside).1, allHaveWords_iff.2 fun e member => all e member outside⟩
  definition _ := ⟨false, (fun inside => nomatch inside), fun _ _ => trivial⟩

/-- Simplifying brings in no other names. -/
theorem hasWords_simplify {ctx : Context} {e t : Expr} (words : e.HasWords v)
    (done : (e.simplify ctx).1 = .ok t) : t.HasWords v := by
  have ensured := (compositional_hasWords v).ensures_simplify (I := fun _ => True)
    (R := Context.Advances) (d := true) (fun _ => words)
  exact (ensured ctx trivial).2 t done rfl

end Expr

/-! ## Names in all parts of a tree -/

namespace Expr

mutual

/-- Every variable is a name, also in the bodies of definitions, and so are the names and the
parameters of these. -/
def HasNames : Expr → Prop
  | .var name => IsName name
  | .unary _ e => e.HasNames
  | .binary _ _ l r => l.HasNames ∧ r.HasNames
  | .call _ args => AllHaveNames args
  | .definition name params body _ => IsName name ∧ (∀ x ∈ params, IsName x) ∧ body.HasNames
  | .literal .. | .vector _ | .matrix _ | .empty => True

/-- `HasNames` of several trees. -/
def AllHaveNames : List Expr → Prop
  | [] => True
  | e :: es => e.HasNames ∧ AllHaveNames es

end

theorem allHaveNames_iff {es : List Expr} : AllHaveNames es ↔ ∀ e ∈ es, e.HasNames := by
  induction es with
  | nil => simp [AllHaveNames]
  | cons e es ih => rw [AllHaveNames, ih, List.forall_mem_cons]

variable {v : Vocabulary}

theorem hasNames_productOfNames {word : String} (isName : IsName word) :
    (v.productOfNames word).HasNames := by
  refine v.holds_productOfNames ?_ ?_ And.intro
  · exact fun _ => isName
  · exact fun _ member => Vocabulary.isName_of_mem_pieces isName member

theorem hasNames_called {word : String} {args : List Expr} (isName : IsName word)
    (all : ∀ e ∈ args, e.HasNames) : (v.called word args).HasNames := by
  have all := allHaveNames_iff.2 all
  unfold Vocabulary.called
  split
  next => exact all
  next =>
    split
    next front function ending =>
      obtain ⟨nonempty, -, -, whole⟩ := Vocabulary.functionEnding?_eq_some ending
      rw [List.nil_append] at whole
      have frontName : IsName front :=
        ⟨nonempty, fun c here => isName.2 c (whole ▸ List.mem_append_left _ here)⟩
      exact ⟨hasNames_productOfNames frontName, all⟩
    next => exact all

theorem builds_hasNames (v : Vocabulary) :
    Parser.Builds v (fun t => t.kind = .identifier → IsName t.text) HasNames where
  number _ _ := trivial
  unary operand := operand
  binary left right := ⟨left, right⟩
  word isName kind _ := hasNames_productOfNames (isName kind)
  called isName kind _ all := hasNames_called (isName kind) all
  vector _ := trivial
  matrix _ _ := trivial

end Expr

namespace Parser

variable {ts rest : List Token}

/-- The head of a definition is made of names. -/
theorem isName_of_definitionHead? {name : Token} {params : List String}
    (all : ∀ t ∈ ts, t.kind = .identifier → IsName t.text)
    (found : definitionHead? ts = some (name, params, rest)) :
    IsName name.text ∧ (∀ x ∈ params, IsName x) ∧
      ∀ t ∈ rest, t.kind = .identifier → IsName t.text := by
  obtain ⟨⟨here, named⟩, names, -, after⟩ := (head_of_definitionHead? found).mem
  refine ⟨all name here named, fun x member => ?_, fun t member => all t (after member)⟩
  obtain ⟨t, inside, identifier, rfl⟩ := names x member
  exact all t inside identifier

end Parser

namespace Expr

/-- What is read has names for its variables. -/
theorem hasNames_parse {v : Vocabulary} {source : String} {e : Expr}
    (done : parse v source = .ok e) : e.HasNames := by
  obtain ⟨tokens, scanned, read⟩ := exists_of_parse done
  have names := isName_scanFrom scanned
  rcases read with ⟨rfl, -⟩ | ⟨_, _, _, _, rest, st, rfl, head, read⟩ | ⟨-, -, st, read, -⟩
  · trivial
  · obtain ⟨name, params, names⟩ := Parser.isName_of_definitionHead? names head
    have every : Parser.Every (fun t => t.kind = .identifier → IsName t.text) ⟨none, rest⟩ := names
    exact ⟨name, params, ((builds_hasNames _).expression every read).1⟩
  · have every : Parser.Every (fun t => t.kind = .identifier → IsName t.text) ⟨none, tokens⟩ :=
      names
    exact ((builds_hasNames v).expression every read).1

theorem compositional_hasNames : Compositional fun (_ : Unit) e => e.HasNames where
  number _ _ := trivial
  unary := Iff.rfl
  binary := Iff.rfl
  call names := ⟨fun e member => allHaveNames_iff.1 names e member, allHaveNames_iff.2⟩
  definition := fun ⟨name, params, body⟩ => ⟨(), body, fun body' => ⟨name, params, body'⟩⟩

/-- Simplifying brings in no other names. -/
theorem hasNames_simplify {ctx : Context} {e t : Expr} (names : e.HasNames)
    (done : (e.simplify ctx).1 = .ok t) : t.HasNames := by
  have ensured := compositional_hasNames.ensures_simplify (I := fun _ => True)
    (R := Context.Advances) (d := ()) names
  exact (ensured ctx trivial).2 t done

end Expr

end Reckon
