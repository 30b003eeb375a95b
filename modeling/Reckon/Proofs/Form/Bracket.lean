import Reckon.Proofs.Expr.Unwrap
import Reckon.Proofs.Form.Read

/-!
# Rows of forms in brackets

In a row there is one blank between two forms, and the rows of a matrix stand side by side. A blank
ends a form in brackets unless an operator goes on with it, and a sign goes on with it unless an
operand stands right behind the sign. So the forms of a row are read one by one if none after the
first begins with two signs (`Form.SingleSign`).

Results: `Form.scansRows`, `Form.parse_rows`.
-/

namespace Reckon

open Reckon.Parser

namespace Form

variable {v : Vocabulary} {stop : Nat}

/-! ## Texts and tokens -/

/-- The characters of several forms with blanks between them. -/
def parted : List Form → List Char
  | [] => []
  | [f] => f.chars
  | f :: fs => f.chars ++ (' ' :: parted fs)

/-- The tokens of several forms with blanks between them. -/
def partedTokens (start : Nat) : List Form → List Token
  | [] => []
  | [f] => f.tokens start
  | f :: fs =>
    f.tokens start ++ ⟨.space, " ", start + f.chars.length⟩ ::
      partedTokens (start + f.chars.length + 1) fs

/-- The characters of a row. -/
def rowChars (fs : List Form) : List Char :=
  '[' :: (parted fs ++ [']'])

/-- The tokens of a row. -/
def rowTokens (start : Nat) (fs : List Form) : List Token :=
  ⟨.openBracket, "[", start⟩ ::
    (partedTokens (start + 1) fs ++ [⟨.closeBracket, "]", start + 1 + (parted fs).length⟩])

/-- The characters of rows that stand side by side. -/
def rowsChars : List (List Form) → List Char
  | [] => []
  | fs :: rows => rowChars fs ++ rowsChars rows

/-- The tokens of rows that stand side by side. -/
def rowsTokens (start : Nat) : List (List Form) → List Token
  | [] => []
  | fs :: rows => rowTokens start fs ++ rowsTokens (start + (rowChars fs).length) rows

/-- The form begins with one sign at most. -/
def SingleSign : Form → Prop
  | .signed _ f => f.first ≠ .sign
  | .binary _ _ l _ => l.SingleSign
  | _ => True

/-- The forms can be read in a row. -/
structure RowReadable (v : Vocabulary) (fs : List Form) : Prop where
  readable : AllReadable v fs
  single : ∀ f ∈ fs.tail, f.SingleSign

theorem partedTokens_cons_cons (f g : Form) (fs : List Form) (start : Nat) :
    partedTokens start (f :: g :: fs) =
      f.tokens start ++ ⟨.space, " ", start + f.chars.length⟩ ::
        partedTokens (start + f.chars.length + 1) (g :: fs) :=
  rfl

theorem exists_partedTokens (f : Form) (fs : List Form) (start : Nat) :
    ∃ rest, partedTokens start (f :: fs) = f.tokens start ++ rest := by
  cases fs with
  | nil => exact ⟨[], (List.append_nil _).symm⟩
  | cons g fs => exact ⟨_, rfl⟩

/-- Elements as they stand in a row. -/
theorem parted_eq_intercalate : ∀ {fs : List Form} {texts : List String},
    List.Forall₂ (fun f text => f.chars = text.toList) fs texts →
      parted fs = (" ".intercalate texts).toList
  | _, _, .nil => by simp [parted]
  | _, _, .cons text .nil => by simpa [parted] using text
  | f :: g :: fs, _, .cons text (.cons text' rest) => by
    change f.chars ++ (' ' :: parted (g :: fs)) = _
    rw [parted_eq_intercalate (.cons text' rest), text, String.intercalate_cons_cons,
      String.toList_append, String.toList_append, List.append_assoc]
    rfl

/-! ## Cutting into tokens -/

theorem borders_space (edge : Edge) (rest : List Char) : edge.Borders (' ' :: rest) := by
  cases edge with
  | name =>
    rintro c ⟨⟩
    exact isNameChar_eq_false (by decide)
  | _ => simp [Edge.Borders]

/-- The texts of several forms with blanks between them, in front of a bracket. -/
theorem scansParted : ∀ {fs : List Form}, AllReadable v fs → ∀ (start : Nat) (rest : List Char),
    Scans start (parted fs) (partedTokens start fs) (']' :: rest)
  | [], _, start, rest => scans_nil start _
  | [f], ⟨head, _⟩, start, rest => scans head start _ (f.final.borders_mark _ (by decide))
  | f :: g :: fs, ⟨head, all⟩, start, rest => by
    have next := scansParted all (start + f.chars.length + 1) rest
    obtain ⟨c, cs, shape, begins⟩ : ∃ c cs, parted (g :: fs) = c :: cs ∧
        g.first.begins c = true := by
      obtain ⟨c, cs, shape, begins⟩ := exists_chars all.1
      cases fs with
      | nil => exact ⟨c, cs, shape, begins⟩
      | cons => exact ⟨c, _, by rw [parted, shape, List.cons_append]; simp, begins⟩
    have visible : ∀ c ∈ (parted (g :: fs) ++ ']' :: rest).head?, Text.isBlank c = false := by
      rw [shape]
      simpa using Edge.isBlank_of_begins begins
    have space := scans_space (start + f.chars.length) visible
    have body := scans head start (' ' :: (parted (g :: fs) ++ ']' :: rest)) (borders_space _ _)
    exact body.append (space.cons next)

theorem scansRow {fs : List Form} (all : AllReadable v fs) (start : Nat) (rest : List Char) :
    Scans start (rowChars fs) (rowTokens start fs) rest := by
  have opening := scans_punctuation start (c := '[') (parted fs ++ [']'] ++ rest) rfl (by decide)
  have closing := scans_punctuation (c := ']') (start + 1 + (parted fs).length) rest rfl (by decide)
  exact opening.cons ((scansParted all (start + 1) rest).append closing)

/-- The text of rows is cut into their tokens. -/
theorem scansRows : ∀ {rows : List (List Form)}, (∀ fs ∈ rows, AllReadable v fs) →
    ∀ (start : Nat) (rest : List Char), Scans start (rowsChars rows) (rowsTokens start rows) rest
  | [], _, start, rest => scans_nil start rest
  | fs :: rows, all, start, rest => by
    obtain ⟨head, tail⟩ := List.forall_mem_cons.1 all
    exact (scansRow head start _).append (scansRows tail _ rest)

/-! ## Where a form ends in a row -/

/-- The tokens are taken for an operand after a blank: they begin with one, or with a sign and
one. -/
def Leads (ts : List Token) : Prop :=
  ∃ t ts', ts = t :: ts' ∧ (t.startsOperand = true ∨
    (∃ sign, signOf? t = some sign) ∧ ∃ t' ts'', ts' = t' :: ts'' ∧ t'.startsOperand = true)

theorem startsOperand_of_opens {edge : Edge} {t : Token} (opens : edge.Opens t)
    (operand : edge ≠ .sign) : t.startsOperand = true := by
  obtain ⟨kind, text, start⟩ := t
  cases edge <;> cases kind <;> simp_all [Edge.Opens, Token.startsOperand, Token.isNumber]

theorem leads_tokens : ∀ {f : Form}, f.SingleSign → ∀ (start : Nat) (rest : List Token),
    Leads (f.tokens start ++ rest)
  | .number .., _, _, _ => ⟨_, _, rfl, .inl rfl⟩
  | .word _, _, _, _ => ⟨_, _, rfl, .inl rfl⟩
  | .signed sign f, single, start, rest => by
    obtain ⟨t, ts, shape, opens⟩ := f.exists_tokens (start + 1)
    have behind := startsOperand_of_opens opens single
    cases sign with
    | positive =>
      exact ⟨_, f.tokens (start + 1) ++ rest, rfl, .inr ⟨⟨_, rfl⟩, t, ts ++ rest,
        by rw [shape, List.cons_append], behind⟩⟩
    | negative =>
      exact ⟨_, f.tokens (start + 1) ++ rest, rfl, .inr ⟨⟨_, rfl⟩, t, ts ++ rest,
        by rw [shape, List.cons_append], behind⟩⟩
  | .binary _ true l _, single, start, rest => by
    rw [tokens, List.append_assoc]
    exact leads_tokens (f := l) single start _
  | .binary _ false l _, single, start, rest => by
    rw [tokens, List.append_assoc]
    exact leads_tokens (f := l) single start _
  | .call .., _, _, _ => ⟨_, _, rfl, .inl rfl⟩
  | .paren _, _, _, _ => ⟨_, _, rfl, .inl rfl⟩

theorem skipBlanks_blank {blank : Token} (ts : List Token) (space : blank.isSpace = true) :
    skipBlanks (blank :: ts) = skipBlanks ts := by
  rw [skipBlanks, if_pos space]

/-- A blank ends the operand before it. -/
theorem upcoming_of_leads {last : Option Token} {blank : Token} {ts : List Token}
    (space : blank.isSpace = true) (leads : Leads ts) :
    upcoming true ⟨last, blank :: ts⟩ = .ok none := by
  obtain ⟨⟨kind, text, start⟩, ts', rfl, operand | ⟨⟨sign, isSign⟩, t', ts'', rfl, operand⟩⟩ :=
    leads
  · have visible : skipBlanks (⟨kind, text, start⟩ :: ts') = ⟨kind, text, start⟩ :: ts' :=
      skipBlanks_cons _ (by cases kind <;> simp_all [Token.isSpace, Token.startsOperand])
    rw [upcoming, skipBlanks_blank _ space, visible]
    cases kind <;> simp_all [Token.startsOperand]
  · obtain ⟨op, rfl, plusMinus⟩ : ∃ op, kind = .operator op ∧ (op == .plus || op == .minus) := by
      unfold signOf? at isSign
      split at isSign
      next plus => exact ⟨.plus, plus, rfl⟩
      next minus => exact ⟨.minus, minus, rfl⟩
      next => cases isSign
    rw [upcoming, skipBlanks_blank _ space, skipBlanks_cons _ rfl]
    simp [space, operand, plusMinus]

theorem ends_of_leads (f : Form) (start : Nat) {blank : Token} {ts : List Token}
    (space : blank.isSpace = true) (leads : Leads ts) : f.Ends true start (blank :: ts) := by
  refine ⟨⟨none, upcoming_of_leads space leads, by simp⟩, fun _ => ?_⟩
  have kind : blank.kind = .space := eq_of_beq space
  simp [Apart, adjacent, kind]

/-! ## Reading -/

/-- The rest of a row begins with no blank. -/
theorem skipBlanks_partedTokens (fs : List Form) (start : Nat) {closing : Token}
    (rest : List Token) (closes : closing.kind = .closeBracket) :
    skipBlanks (partedTokens start fs ++ closing :: rest) =
      partedTokens start fs ++ closing :: rest := by
  cases fs with
  | nil => exact skipBlanks_cons _ (by simp [Token.isSpace, closes])
  | cons f fs =>
    obtain ⟨after, parts⟩ := exists_partedTokens f fs start
    rw [parts, List.append_assoc, skipBlanks_tokens]

/-- The elements of a row up to its closing bracket. -/
theorem reads_row : ∀ {fs : List Form} (before : List Expr), RowReadable v fs →
    ∀ {start : Nat} {st : State} {opening closing : Token} {rest : List Token},
      skipBlanks st.rest = partedTokens start fs ++ closing :: rest →
      closing.kind = .closeBracket →
      Reads (row v stop opening before false st) (before ++ reads v fs) ⟨some closing, rest⟩
  | [], before, _, _, _, _, _, _, shape, closes => by
    rw [reads, List.append_nil]
    exact reads_row_nil before shape closes
  | f :: fs, before, ⟨⟨head, all⟩, single⟩, start, st, opening, closing, rest, shape, closes => by
    obtain ⟨t, ts, first, opens⟩ := f.exists_tokens start
    obtain ⟨after, parts⟩ := exists_partedTokens f fs start
    have more : t.kind ≠ .closeBracket ∧ t.kind ≠ .comma := by
      obtain ⟨kind, text, start⟩ := t
      cases shape : f.first <;> cases kind <;>
        simp_all [Edge.Opens, Token.isNumber, signOf?]
    have accumulated : before ++ reads v (f :: fs) = before ++ [f.read v] ++ reads v fs := by
      rw [List.append_assoc]
      rfl
    have begins : skipBlanks st.rest = t :: (ts ++ (after ++ closing :: rest)) := by
      rw [shape, parts, first]
      simp
    rw [accumulated]
    cases fs with
    | nil =>
      have visible : skipBlanks (closing :: rest) = closing :: rest :=
        skipBlanks_cons _ (by simp [Token.isSpace, closes])
      have closing' : Closing closing := .inr (.inr closes)
      refine reads_row_cons begins more.1 more.2
        (reads_expression head (Nat.zero_le _) shape (f.ends_of_closing start rest closing')
          (reads_chain_nil _ _ _ (loose_of_closing _ _ _ closing'))) ?_
      rw [reads, List.append_nil]
      exact reads_row_nil _ visible closes
    | cons g fs =>
      obtain ⟨singleHead, singleTail⟩ := List.forall_mem_cons.1 single
      rw [partedTokens_cons_cons, List.append_assoc, List.cons_append] at shape
      have leads : Leads (partedTokens (start + f.chars.length + 1) (g :: fs) ++
          closing :: rest) := by
        obtain ⟨after', parts'⟩ := exists_partedTokens g fs (start + f.chars.length + 1)
        rw [parts', List.append_assoc]
        exact leads_tokens singleHead _ _
      have visible : skipBlanks (⟨.space, " ", start + f.chars.length⟩ ::
          (partedTokens (start + f.chars.length + 1) (g :: fs) ++ closing :: rest)) =
          partedTokens (start + f.chars.length + 1) (g :: fs) ++ closing :: rest := by
        rw [skipBlanks_blank _ rfl, skipBlanks_partedTokens _ _ _ closes]
      exact reads_row_cons begins more.1 more.2
        (reads_expression head (Nat.zero_le _) shape (f.ends_of_leads start rfl leads)
          (reads_chain_nil _ _ _ ⟨none, upcoming_of_leads rfl leads, by simp⟩))
        (reads_row (before ++ [f.read v]) ⟨all, singleTail⟩ visible closes)

/-- A row from behind its opening bracket. -/
theorem reads_rowTokens (stop : Nat) {fs : List Form} (readable : RowReadable v fs) (start : Nat)
    (opening : Token) (last : Option Token) (rest : List Token) :
    ∃ closing, Reads (Parser.row v stop opening [] false ⟨last, (rowTokens start fs ++ rest).tail⟩)
      (reads v fs) ⟨some closing, rest⟩ := by
  rw [rowTokens, List.cons_append, List.tail_cons, List.append_assoc, List.singleton_append]
  exact ⟨_, reads_row [] readable (skipBlanks_partedTokens fs _ rest rfl) rfl⟩

/-- The rows behind a row, up to the end of the text. -/
theorem reads_moreRows (stop : Nat) (spaced : Bool) : ∀ {rows : List (List Form)}
    (before : List (List Expr)), (∀ fs ∈ rows, RowReadable v fs) →
      ∀ (start : Nat) (last : Option Token),
      ∃ last', Reads (moreRows v stop spaced before ⟨last, rowsTokens start rows⟩)
        (before ++ rows.map (reads v)) ⟨last', []⟩
  | [], before, _, _, last => by
    rw [List.map_nil, List.append_nil]
    refine ⟨last, reads_moreRows_nil v stop before ?_⟩
    cases spaced <;> rfl
  | fs :: rows, before, all, start, last => by
    obtain ⟨head, tail⟩ := List.forall_mem_cons.1 all
    obtain ⟨closing, first⟩ := reads_rowTokens stop head start
      ⟨.openBracket, "[", start⟩ (some ⟨.openBracket, "[", start⟩)
      (rowsTokens (start + (rowChars fs).length) rows)
    obtain ⟨last', others⟩ := reads_moreRows stop spaced (before ++ [reads v fs]) tail
      (start + (rowChars fs).length) (some closing)
    rw [List.append_assoc] at others
    exact ⟨last', reads_moreRows_cons rfl rfl first others⟩

/-- Rows are read as what the bracket makes of their elements. -/
theorem reads_rows {fs : List Form} {rows : List (List Form)} {e : Expr}
    (all : ∀ fs' ∈ fs :: rows, RowReadable v fs')
    (tree : ∀ first last, bracketOf ((fs :: rows).map (reads v)) first last = .ok e) :
    ∃ last, Reads (expression v stop false 0 ⟨none, rowsTokens 0 (fs :: rows)⟩) e ⟨last, []⟩ := by
  obtain ⟨head, tail⟩ := List.forall_mem_cons.1 all
  obtain ⟨closing, first⟩ := reads_rowTokens stop head 0 ⟨.openBracket, "[", 0⟩
    (some ⟨.openBracket, "[", 0⟩) (rowsTokens (0 + (rowChars fs).length) rows)
  obtain ⟨last, others⟩ := reads_moreRows stop false [reads v fs] tail
    (0 + (rowChars fs).length) (some closing)
  refine ⟨last, Parser.reads_expression (reads_operand_bracket (skipBlanks_cons _ rfl) rfl first
    others (tree _ _)) (reads_chain_nil _ _ _ ⟨none, rfl, by simp⟩)⟩

/-- The text of rows is read as what the bracket makes of their elements. -/
theorem parse_rows {rows : List (List Form)} {e : Expr} (nonempty : rows ≠ [])
    (all : ∀ fs ∈ rows, RowReadable v fs)
    (tree : ∀ first last, bracketOf (rows.map (reads v)) first last = .ok e) :
    parse v (String.ofList (rowsChars rows)) = .ok e := by
  obtain ⟨fs, rows, rfl⟩ := List.exists_cons_of_ne_nil nonempty
  have scans := scansRows (fun fs member => (all fs member).readable) 0 []
  obtain ⟨last, read⟩ := reads_rows all tree
  exact parse_of_reads scans.scan read (next_eq_none rfl)

end Form

end Reckon
