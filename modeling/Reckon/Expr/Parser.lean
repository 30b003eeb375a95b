import Reckon.Expr.Basic
import Reckon.Token.Lexer

/-!
# Reading an expression

Operands are read by `Parser.operand` and `Parser.primary`, and `Parser.expression` joins them by
operators, written or not, according to binding and direction.

Blanks do not matter except inside of brackets, where they separate elements (`[1 -2]` has two
elements, `[1 - 2]` has one), and between two numbers, which is a fault. Every reader returns the
tokens that it leaves, and these are fewer than it was given.
-/

namespace Reckon

/-- What the reader has to know about names. -/
structure Vocabulary where
  /-- The name can be called. -/
  isFunction : String → Bool
  /-- The name is a whole: a constant, a parameter or a bound variable. -/
  isKnown : String → Bool

/-- More names that are wholes. -/
def Vocabulary.extend (v : Vocabulary) (names : List String) : Vocabulary :=
  { v with isKnown := fun name => names.contains name || v.isKnown name }

namespace Vocabulary

/-! ## Cutting identifiers into names -/

/-- The longest known name of at least two characters that the characters begin with, tried from
length `n` down. -/
def longestKnown? (v : Vocabulary) (cs : List Char) : Nat → Option Nat
  | 0 => none
  | n + 1 =>
    if n + 1 ≤ cs.length && 2 ≤ n + 1 && v.isKnown (String.ofList (cs.take (n + 1))) then
      some (n + 1)
    else longestKnown? v cs n

/-- The characters cut into known names, the longest first, and single letters. -/
def cut (v : Vocabulary) (cs : List Char) : List String :=
  match cs with
  | [] => []
  | c :: rest =>
    match v.longestKnown? (c :: rest) (c :: rest).length with
    | some n => String.ofList ((c :: rest).take n) :: v.cut (rest.drop (n - 1))
    | none => c.toString :: v.cut rest
termination_by cs.length
decreasing_by all_goals simp; try omega

/-- The names in an identifier. -/
def pieces (v : Vocabulary) (name : String) : List String :=
  if v.isKnown name then [name] else v.cut name.toList

/-- The product of the names in an identifier. -/
def productOfNames (v : Vocabulary) (name : String) : Expr :=
  match v.pieces name with
  | [] => .var name
  | first :: others => others.foldl (fun e piece => .juxtaposed e (.var piece)) (.var first)

/-- A proper ending of an identifier that is a function, the longest first, and what stands in
front of it. -/
def functionEnding? (v : Vocabulary) : (front back : List Char) → Option (String × String)
  | _, [] => none
  | front, c :: back =>
    if !front.isEmpty && v.isFunction (String.ofList (c :: back)) then
      some (String.ofList front, String.ofList (c :: back))
    else functionEnding? v (front ++ [c]) back

end Vocabulary

namespace Parser

/-- The tokens that are left, and the one that was read last. -/
structure State where
  last : Option Token
  rest : List Token

/-- The number of tokens that are left. -/
abbrev State.size (st : State) : Nat := st.rest.length

/-- A result with fewer than `n` tokens left. -/
abbrev Result (α : Type) (n : Nat) := Except SyntaxFault (α × { st : State // st.size < n })

/-- The tokens without leading blanks. -/
def skipBlanks : List Token → List Token
  | [] => []
  | t :: ts => if t.isSpace then skipBlanks ts else t :: ts

theorem length_skipBlanks_le (ts : List Token) : (skipBlanks ts).length ≤ ts.length := by
  induction ts with
  | nil => simp [skipBlanks]
  | cons t ts ih =>
    rw [skipBlanks]
    split
    · simp only [List.length_cons]; omega
    · exact Nat.le_refl _

/-- The next token that is no blank, and what follows it. -/
def next (st : State) : Option (Token × { st' : State // st'.size < st.size }) :=
  match h : skipBlanks st.rest with
  | [] => none
  | t :: ts => some (t, ⟨⟨some t, ts⟩, by
      have fewer := length_skipBlanks_le st.rest
      rw [h] at fewer
      simp only [State.size, List.length_cons] at fewer ⊢
      omega⟩)

/-- The token that stands right after an identifier or a bracket: between the elements of a
vector a blank counts. -/
def adjacent (spaced : Bool) (st : State) : Option Token :=
  if spaced then st.rest.head? else (next st).map (·.1)

/-- The operator that goes on with an expression, and whether it is unwritten; none where the
expression ends. -/
def upcoming (spaced : Bool) (st : State) : Except SyntaxFault (Option (Operator × Bool)) :=
  match skipBlanks st.rest with
  | [] => .ok none
  | t :: ts =>
    let apart := spaced && (st.rest.head?.any Token.isSpace)
    match t.kind with
    | .operator op =>
      if apart && (op == .plus || op == .minus) && ts.head?.any Token.startsOperand then .ok none
      else .ok (some (op, false))
    | _ =>
      if apart || !t.startsOperand then .ok none
      else if t.isNumber && st.last.any Token.isNumber then
        .error (.atToken .numbersAdjoin t)
      else .ok (some (.times, true))

/-- The closing parenthesis of the one at `opening`. -/
def close (opening : Token) (st : State) : Result Unit st.size :=
  match next st with
  | none => .error ⟨.parenNotClosed, opening.start, 1⟩
  | some (t, st') =>
    if t.kind == .closeParen then .ok ((), st')
    else .error (.atToken (.closeParenExpected t.text) t)

/-- The tree of a bracket that begins at `start` and ends before `stop`. -/
def matrixOf (rows : List Expr) (start stop : Nat) : Except SyntaxFault Expr :=
  match rows with
  | [] => .ok (.matrix [])
  | row :: others =>
    let width := row.elements.length
    if others.any (·.elements.length != width) then
      .error ⟨.raggedRows, start, max 1 (stop - start)⟩
    else if width = 0 then .error ⟨.emptyRows, start, 1⟩
    else .ok (.matrix rows)

/-- The tree of bracketed rows: one row is a vector, unless it holds a matrix or vectors. -/
def bracketOf (rows : List (List Expr)) (start stop : Nat) : Except SyntaxFault Expr :=
  match rows with
  | [[.matrix inner]] => .ok (.matrix inner)
  | [es] => if !es.isEmpty && es.all Expr.isVector then matrixOf es start stop else .ok (.vector es)
  | rows => matrixOf (rows.map .vector) start stop

/-- The offset behind the token that was read last. -/
def State.stop (st : State) : Nat :=
  st.last.elim 0 Token.stop

/-- The sign of a token that can stand in front of an operand. -/
def signOf? (t : Token) : Option Sign :=
  match t.kind with
  | .operator .plus => some .positive
  | .operator .minus => some .negative
  | _ => none

/-- The least binding that the right operand of an operator may have. -/
def rightBinding (op : Operator) : Binding :=
  match op.associativity with
  | .leftToRight => op.binding + 1
  | .rightToLeft => op.binding

mutual

/-- An expression whose operators bind at least as tightly as `least`. -/
def expression (v : Vocabulary) (stop : Nat) (spaced : Bool) (least : Binding) (st : State) :
    Result Expr st.size :=
  match operand v stop spaced st with
  | .error fault => .error fault
  | .ok (left, ⟨st₁, h₁⟩) =>
    match chain v stop spaced least left st₁ with
    | .error fault => .error fault
    | .ok (e, ⟨st₂, h₂⟩) => .ok (e, ⟨st₂, by omega⟩)
termination_by 8 * st.size + 4

/-- The operators that follow the operand `left`, with their right operands. -/
def chain (v : Vocabulary) (stop : Nat) (spaced : Bool) (least : Binding) (left : Expr)
    (st : State) : Result Expr (st.size + 1) :=
  match upcoming spaced st with
  | .error fault => .error fault
  | .ok none => .ok (left, ⟨st, by omega⟩)
  | .ok (some (op, true)) =>
    if op.binding < least then .ok (left, ⟨st, by omega⟩)
    else
      match expression v stop spaced (rightBinding op) st with
      | .error fault => .error fault
      | .ok (right, ⟨st₁, h₁⟩) =>
        match chain v stop spaced least (.binary op true left right) st₁ with
        | .error fault => .error fault
        | .ok (e, ⟨st₂, h₂⟩) => .ok (e, ⟨st₂, by omega⟩)
  | .ok (some (op, false)) =>
    if op.binding < least then .ok (left, ⟨st, by omega⟩)
    else
      match next st with
      | none => .ok (left, ⟨st, by omega⟩)
      | some (_, ⟨st₀, h₀⟩) =>
        match expression v stop spaced (rightBinding op) st₀ with
        | .error fault => .error fault
        | .ok (right, ⟨st₁, h₁⟩) =>
          match chain v stop spaced least (.binary op false left right) st₁ with
          | .error fault => .error fault
          | .ok (e, ⟨st₂, h₂⟩) => .ok (e, ⟨st₂, by omega⟩)
termination_by 8 * st.size + 5

/-- An operand with its signs. A sign takes powers with it: `-x^2` is `-(x^2)`, but `-2x` is
`(-2)x`. -/
def operand (v : Vocabulary) (stop : Nat) (spaced : Bool) (st : State) : Result Expr st.size :=
  match next st with
  | none => .error ⟨.unexpectedEnd, stop, 1⟩
  | some (t, ⟨st₁, h₁⟩) =>
    match signOf? t with
    | some sign =>
      match expression v stop spaced Binding.unary st₁ with
      | .error fault => .error fault
      | .ok (e, ⟨st₂, h₂⟩) => .ok (.unary sign e, ⟨st₂, by omega⟩)
    | none => primary v stop spaced t st st₁ h₁
termination_by 8 * st.size + 3

/-- An operand that begins with the token `t`, before which the state was `st₀`. -/
def primary (v : Vocabulary) (stop : Nat) (spaced : Bool) (t : Token) (st₀ st : State)
    (h : st.size < st₀.size) : Result Expr st₀.size :=
  match t.kind with
  | .number n => .ok (.literal n true, ⟨st, h⟩)
  | .identifier => identifier v stop spaced t st₀ st h
  | .openParen =>
    match expression v stop false 0 st with
    | .error fault => .error fault
    | .ok (e, ⟨st₁, h₁⟩) =>
      match close t st₁ with
      | .error fault => .error fault
      | .ok ((), ⟨st₂, h₂⟩) => .ok (e, ⟨st₂, by omega⟩)
  | .openBracket =>
    match row v stop t [] false st with
    | .error fault => .error fault
    | .ok (es, ⟨st₁, h₁⟩) =>
      match moreRows v stop spaced [es] st₁ with
      | .error fault => .error fault
      | .ok (rows, ⟨st₂, h₂⟩) =>
        match bracketOf rows t.start st₂.stop with
        | .error fault => .error fault
        | .ok e => .ok (e, ⟨st₂, by omega⟩)
  | _ => .error (.atToken (.operandExpected t.text) t)
termination_by 8 * st₀.size + 2

/-- A name: a call, a product that ends in a call, or a product of variables. -/
def identifier (v : Vocabulary) (stop : Nat) (spaced : Bool) (t : Token) (st₀ st : State)
    (h : st.size < st₀.size) : Result Expr st₀.size :=
  if (adjacent spaced st).any (·.kind == .openParen) then
    if v.isFunction t.text then
      match call v stop t.text st with
      | .error fault => .error fault
      | .ok (e, ⟨st₁, h₁⟩) => .ok (e, ⟨st₁, by omega⟩)
    else
      match v.functionEnding? [] t.text.toList with
      | some (front, function) =>
        match call v stop function st with
        | .error fault => .error fault
        | .ok (e, ⟨st₁, h₁⟩) => .ok (.juxtaposed (v.productOfNames front) e, ⟨st₁, by omega⟩)
      | none =>
        if (v.pieces t.text).all v.isKnown then .ok (v.productOfNames t.text, ⟨st, h⟩)
        else
          match call v stop t.text st with
          | .error fault => .error fault
          | .ok (e, ⟨st₁, h₁⟩) => .ok (e, ⟨st₁, by omega⟩)
  else if v.isFunction t.text && !v.isKnown t.text then
    .error ⟨.callExpected t.text, t.stop, 1⟩
  else .ok (v.productOfNames t.text, ⟨st, h⟩)
termination_by 8 * st₀.size + 1

/-- The arguments of a call, from the opening parenthesis on. -/
def call (v : Vocabulary) (stop : Nat) (name : String) (st : State) : Result Expr st.size :=
  match next st with
  | none => .error ⟨.unexpectedEnd, stop, 1⟩
  | some (opening, ⟨st₁, h₁⟩) =>
    match next st₁ with
    | some (⟨.closeParen, _, _⟩, ⟨st₂, h₂⟩) => .ok (.call name [], ⟨st₂, by omega⟩)
    | _ =>
      match arguments v stop opening [] st₁ with
      | .error fault => .error fault
      | .ok (args, ⟨st₂, h₂⟩) => .ok (.call name args, ⟨st₂, by omega⟩)
termination_by 8 * st.size

/-- Arguments separated by commas, up to the closing parenthesis; `before` are those read. -/
def arguments (v : Vocabulary) (stop : Nat) (opening : Token) (before : List Expr) (st : State) :
    Result (List Expr) st.size :=
  match expression v stop false 0 st with
  | .error fault => .error fault
  | .ok (e, ⟨st₁, h₁⟩) =>
    match next st₁ with
    | some (⟨.comma, _, _⟩, ⟨st₂, h₂⟩) =>
      match arguments v stop opening (before ++ [e]) st₂ with
      | .error fault => .error fault
      | .ok (args, ⟨st₃, h₃⟩) => .ok (args, ⟨st₃, by omega⟩)
    | _ =>
      match close opening st₁ with
      | .error fault => .error fault
      | .ok ((), ⟨st₂, h₂⟩) => .ok (before ++ [e], ⟨st₂, by omega⟩)
termination_by 8 * st.size + 5

/-- The elements of a row up to its closing bracket; `before` are those read, and `wanted` says
that a comma was read last. -/
def row (v : Vocabulary) (stop : Nat) (opening : Token) (before : List Expr) (wanted : Bool)
    (st : State) : Result (List Expr) (st.size + 1) :=
  match next st with
  | none => .error ⟨.bracketNotClosed, opening.start, 1⟩
  | some (t, ⟨st₁, h₁⟩) =>
    match t.kind with
    | .closeBracket =>
      if wanted then .error ⟨.elementAfterComma, t.start, 1⟩
      else .ok (before, ⟨st₁, by omega⟩)
    | .comma =>
      if wanted || before.isEmpty then .error ⟨.elementBeforeComma, t.start, 1⟩
      else
        match row v stop opening before true st₁ with
        | .error fault => .error fault
        | .ok (es, ⟨st₂, h₂⟩) => .ok (es, ⟨st₂, by omega⟩)
    | _ =>
      match expression v stop true 0 st with
      | .error fault => .error fault
      | .ok (e, ⟨st₂, h₂⟩) =>
        match row v stop opening (before ++ [e]) false st₂ with
        | .error fault => .error fault
        | .ok (es, ⟨st₃, h₃⟩) => .ok (es, ⟨st₃, by omega⟩)
termination_by 8 * st.size + 6

/-- The rows that follow a row without anything in between. -/
def moreRows (v : Vocabulary) (stop : Nat) (spaced : Bool) (before : List (List Expr))
    (st : State) : Result (List (List Expr)) (st.size + 1) :=
  if (adjacent spaced st).any (·.kind == .openBracket) then
    match next st with
    | none => .ok (before, ⟨st, by omega⟩)
    | some (opening, ⟨st₁, h₁⟩) =>
      match row v stop opening [] false st₁ with
      | .error fault => .error fault
      | .ok (es, ⟨st₂, h₂⟩) =>
        match moreRows v stop spaced (before ++ [es]) st₂ with
        | .error fault => .error fault
        | .ok (rows, ⟨st₃, h₃⟩) => .ok (rows, ⟨st₃, by omega⟩)
  else .ok (before, ⟨st, by omega⟩)
termination_by 8 * st.size + 7

end

/-! ## Definitions -/

/-- The parameters after the opening parenthesis of a definition, and the tokens after `) =`. -/
def parameters? : (fuel : Nat) → List Token → Option (List String × List Token)
  | 0, _ => none
  | fuel + 1, ts =>
    match skipBlanks ts with
    | ⟨.identifier, name, _⟩ :: ts =>
      match skipBlanks ts with
      | ⟨.comma, _, _⟩ :: ts =>
        (parameters? fuel ts).map fun (names, rest) => (name :: names, rest)
      | ⟨.closeParen, _, _⟩ :: ts =>
        match skipBlanks ts with
        | ⟨.equals, _, _⟩ :: ts => some ([name], ts)
        | _ => none
      | _ => none
    | _ => none

/-- The head `name(p, q) =` of a definition: the name, the parameters and the tokens after it. -/
def definitionHead? (ts : List Token) : Option (Token × List String × List Token) :=
  match skipBlanks ts with
  | name@⟨.identifier, _, _⟩ :: ts =>
    match skipBlanks ts with
    | ⟨.openParen, _, _⟩ :: ts =>
      match skipBlanks ts with
      | ⟨.closeParen, _, _⟩ :: ts =>
        match skipBlanks ts with
        | ⟨.equals, _, _⟩ :: ts => some (name, [], ts)
        | _ => none
      | ts => (parameters? ts.length ts).map fun (params, rest) => (name, params, rest)
    | _ => none
  | _ => none

/-- Some name occurs twice. -/
def hasDuplicate : List String → Bool
  | [] => false
  | name :: names => names.contains name || hasDuplicate names

/-- The tree of a definition, from its body on. -/
def definition (v : Vocabulary) (source : String) (stop : Nat) (name : Token)
    (params : List String) (rest : List Token) : Except SyntaxFault (Expr × State) :=
  if (skipBlanks rest).isEmpty then .error ⟨.emptyBody, stop, 1⟩
  else
    match expression (v.extend params) stop false 0 ⟨none, rest⟩ with
    | .error fault => .error fault
    | .ok (body, ⟨st, _⟩) =>
      if hasDuplicate params then
        .error ⟨.duplicateParameter name.text params, name.start, max 1 (st.stop - name.start)⟩
      else .ok (.definition name.text params body (some (Text.trim source)), st)

/-- The tree of a list of tokens. -/
def ofTokens (v : Vocabulary) (source : String) (tokens : List Token) :
    Except SyntaxFault Expr :=
  let stop := source.length
  if (skipBlanks tokens).isEmpty then .ok .empty
  else
    let read := match definitionHead? tokens with
      | some (name, params, rest) => definition v source stop name params rest
      | none =>
        match expression v stop false 0 ⟨none, tokens⟩ with
        | .error fault => .error fault
        | .ok (e, ⟨st, _⟩) => .ok (e, st)
    match read with
    | .error fault => .error fault
    | .ok (e, st) =>
      match next st with
      | some (t, _) => .error (.atToken (.unexpected t.text) t)
      | none => .ok e

end Parser

/-- The tree of a text. -/
def parse (v : Vocabulary) (source : String) : Except SyntaxFault Expr :=
  match scan source with
  | .error fault => .error fault
  | .ok tokens => Parser.ofTokens v source tokens

end Reckon
