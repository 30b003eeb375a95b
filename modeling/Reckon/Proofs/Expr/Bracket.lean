import Reckon.Proofs.Expr.RoundTrip
import Reckon.Proofs.Expr.Unwrap
import Reckon.Proofs.Expr.Words
import Reckon.Proofs.Form.Bracket
import Reckon.Request

/-!
# Reading back vectors and matrices

The entries of a vector are written with a blank between them, and the rows of a matrix side by
side. They are read back one by one (`parse_text_rows`) if the text of none behind the first of its
row begins with two signs: a sign behind a blank begins an element only if an operand follows it at
once, so `[1 --x]` is one element (`loses_signed`). A number has at most the thousand digits that
its text keeps (`loses_long`).

Results: `parse_text_rows`, `loses_entries`.
-/

namespace Reckon

open Reckon.Parser

namespace Expr

/-! ## Trees that were read -/

mutual

/-- What is known of a tree that was read, outside of attached products: numbers are not negative,
names are names, a name that stands alone can do so, and the rows of a matrix are of one width. -/
def IsRead (v : Vocabulary) : Expr → Prop
  | .literal n _ => ∃ q, n.toRat? = some q ∧ 0 ≤ q
  | .var name => IsName name ∧ (v.isFunction name = true → v.isKnown name = true)
  | .unary _ e => e.IsRead v
  | .binary _ attached l r => attached = false → l.IsRead v ∧ r.IsRead v
  | .call name args => IsName name ∧ AllRead v args
  | .vector es => AllRead v es
  | .matrix rows => IsGrid rows ∧ AllRead v rows
  | .definition .. | .empty => True

/-- `IsRead` of several trees. -/
def AllRead (v : Vocabulary) : List Expr → Prop
  | [] => True
  | e :: es => e.IsRead v ∧ AllRead v es

end

variable {v : Vocabulary}

theorem allRead_iff {es : List Expr} : AllRead v es ↔ ∀ e ∈ es, e.IsRead v := by
  induction es with
  | nil => simp [AllRead]
  | cons e es ih => rw [AllRead, ih, List.forall_mem_cons]

/-- What an identifier is cut into makes up the identifier. -/
theorem flatMap_cut (v : Vocabulary) (cs : List Char) :
    (v.cut cs).flatMap String.toList = cs := by
  induction cs using Vocabulary.cut.induct v with
  | case1 =>
    rw [Vocabulary.cut]
    rfl
  | case2 c rest n found ih =>
    obtain ⟨long, fits, -⟩ := Vocabulary.longestKnown?_eq_some found
    have left : rest.drop (n - 1) = (c :: rest).drop n := by
      obtain ⟨k, rfl⟩ : ∃ k, n = k + 1 := ⟨n - 1, by omega⟩
      rfl
    rw [Vocabulary.cut, found]
    simp only [List.flatMap_cons, String.toList_ofList, ih]
    rw [left, List.take_append_drop]
  | case3 c rest none ih =>
    rw [Vocabulary.cut, none]
    simp [Char.toString, ih]

/-- A word of one piece is that piece. -/
theorem eq_of_pieces {word name : String} (single : v.pieces word = [name]) : name = word := by
  unfold Vocabulary.pieces at single
  split at single
  · exact (List.cons.inj single).1.symm
  · have whole := flatMap_cut v word.toList
    rw [single, List.flatMap_cons, List.flatMap_nil, List.append_nil] at whole
    exact String.toList_injective whole

theorem isRead_productOfNames {word : String} (isName : IsName word)
    (known : v.isFunction word = true → v.isKnown word = true) :
    (v.productOfNames word).IsRead v := by
  have joined : ∀ (names : List String) (l r : Expr),
      (names.foldl (fun e piece => .juxtaposed e (.var piece)) (juxtaposed l r)).IsRead v := by
    intro names
    induction names with
    | nil => exact fun _ _ written => nomatch written
    | cons name names ih => exact fun l r => ih _ _
  unfold Vocabulary.productOfNames
  split
  next none => exact absurd none (Vocabulary.pieces_ne_nil isName)
  next first others shape =>
    cases others with
    | nil =>
      obtain rfl := eq_of_pieces shape
      exact ⟨isName, known⟩
    | cons second others => exact joined others _ _

theorem isRead_called {word : String} {args : List Expr} (isName : IsName word)
    (all : ∀ e ∈ args, e.IsRead v) : (v.called word args).IsRead v := by
  unfold Vocabulary.called
  split
  · exact ⟨isName, allRead_iff.2 all⟩
  · split
    · rintro ⟨⟩
    · exact ⟨isName, allRead_iff.2 all⟩

/-- The token is one of a text: names are names, and numbers are not negative. -/
structure IsWritten (t : Token) : Prop where
  name : t.kind = .identifier → IsName t.text
  number : ∀ n, t.kind = .number n → ∃ q, n.toRat? = some q ∧ 0 ≤ q

theorem builds_isRead (v : Vocabulary) : Builds v IsWritten (IsRead v) where
  number written kind := written.number _ kind
  unary operand := operand
  binary left right _ := ⟨left, right⟩
  word written kind known := isRead_productOfNames (written.name kind) known
  called written kind _ all := isRead_called (written.name kind) all
  vector all := allRead_iff.2 all
  matrix grid all := ⟨grid, allRead_iff.2 all⟩

theorem nonnegative_of_lexeme? {cs text : List Char} {n : Decimal}
    (found : lexeme? cs = some (.number n, text)) : ∃ q, n.toRat? = some q ∧ 0 ≤ q := by
  obtain ⟨c, rest, rfl, lexeme⟩ := exists_lexeme found
  cases lexeme with
  | number =>
    refine ⟨_, rfl, ?_⟩
    rw [Decimal.signedCoefficient_false]
    positivity
  | mark _ _ _ _ mark => exact absurd (mem_of_punctuation? mark) (by simp)

theorem nonnegative_scanFrom {start : Nat} {cs : List Char} {tokens : List Token}
    (done : scanFrom start cs = .ok tokens) :
    ∀ t ∈ tokens, ∀ n, t.kind = .number n → ∃ q, n.toRat? = some q ∧ 0 ≤ q := by
  intro t member n number
  obtain ⟨_, _, -, -, found⟩ := exists_lexeme_of_mem done member
  rw [number] at found
  exact nonnegative_of_lexeme? found

theorem isRead_parse {source : String} {e : Expr} (done : parse v source = .ok e) :
    e.IsRead v := by
  obtain ⟨tokens, scanned, ⟨rfl, -⟩ | ⟨_, _, _, _, _, _, rfl, -, -⟩ | ⟨-, -, st, read, -⟩⟩ :=
    exists_of_parse done
  · trivial
  · trivial
  · rw [scan] at scanned
    have written : Every IsWritten ⟨none, tokens⟩ := fun t member =>
      ⟨isName_scanFrom scanned t member, nonnegative_scanFrom scanned t member⟩
    exact ((builds_isRead v).expression written read).1

/-! ## Entries -/

mutual

/-- The tree is built from numbers of a sort, variables of one letter, signs, operators that are
written and calls of functions. -/
def IsEntry (v : Vocabulary) (sort : ℚ → Prop) : Expr → Prop
  | .literal n _ => ∃ q, n.toRat? = some q ∧ sort q
  | .var name => name.toList.length = 1
  | .unary _ e => e.IsEntry v sort
  | .binary _ attached l r => attached = false ∧ l.IsEntry v sort ∧ r.IsEntry v sort
  | .call name args => v.isFunction name = true ∧ AllEntries v sort args
  | .definition .. | .vector _ | .matrix _ | .empty => False

/-- `IsEntry` of several trees. -/
def AllEntries (v : Vocabulary) (sort : ℚ → Prop) : List Expr → Prop
  | [] => True
  | e :: es => e.IsEntry v sort ∧ AllEntries v sort es

end

theorem allEntries_iff {sort : ℚ → Prop} {es : List Expr} :
    AllEntries v sort es ↔ ∀ e ∈ es, e.IsEntry v sort := by
  induction es with
  | nil => simp [AllEntries]
  | cons e es ih => rw [AllEntries, ih, List.forall_mem_cons]

mutual

theorem IsRead.isExplicit : ∀ {e : Expr}, e.IsRead v →
    e.IsEntry v (Representable Decimal.exactDigits) → e.IsExplicit v
  | .literal n _, ⟨q, value, nonnegative⟩, ⟨q', value', fits⟩ => by
    obtain rfl : q = q' := Option.some.inj (value.symm.trans value')
    exact ⟨q, value, nonnegative, fits⟩
  | .var name, ⟨isName, known⟩, single => by
    refine ⟨isName, ?_⟩
    cases isFunction : v.isFunction name with
    | false => exact .inl ⟨single, rfl⟩
    | true => exact .inr (known isFunction)
  | .unary _ e, read, entry => IsRead.isExplicit (e := e) read entry
  | .binary _ _ _ _, read, ⟨written, left, right⟩ =>
    ⟨written, (read written).1.isExplicit left, (read written).2.isExplicit right⟩
  | .call _ _, ⟨isName, all⟩, ⟨isFunction, entries⟩ =>
    ⟨isName, isFunction, all.allExplicit entries⟩

theorem AllRead.allExplicit : ∀ {es : List Expr}, AllRead v es →
    AllEntries v (Representable Decimal.exactDigits) es → AllExplicit v es
  | [], _, _ => trivial
  | _ :: _, ⟨head, all⟩, ⟨entry, entries⟩ => ⟨head.isExplicit entry, all.allExplicit entries⟩

end

/-- The text of the tree begins with two signs. -/
def beginsWithTwoSigns (e : Expr) : Bool :=
  match e.text.toList with
  | c :: d :: _ => Edge.sign.begins c && Edge.sign.begins d
  | _ => false

/-- A form that begins with two signs has such a text. -/
theorem exists_twoSigns : ∀ {f : Form}, f.Readable v → ¬ f.SingleSign →
    ∃ c d cs, f.chars = c :: d :: cs ∧ Edge.sign.begins c = true ∧ Edge.sign.begins d = true
  | .signed sign f, ⟨operand, _⟩, double => by
    have second : f.first = .sign := not_not.1 double
    obtain ⟨d, cs, shape, begins⟩ := Form.exists_chars operand
    rw [second] at begins
    cases sign with
    | positive => exact ⟨'+', d, cs, congrArg ('+' :: ·) shape, rfl, begins⟩
    | negative => exact ⟨'-', d, cs, congrArg ('-' :: ·) shape, rfl, begins⟩
  | .binary _ _ l _, ⟨left, _⟩, double => by
    obtain ⟨c, d, cs, shape, first, second⟩ := exists_twoSigns (f := l) left double
    exact ⟨c, d, _, by rw [Form.chars, shape]; rfl, first, second⟩
  | .number _, _, double => absurd trivial double
  | .word _, _, double => absurd trivial double
  | .call .., _, double => absurd trivial double
  | .paren _, _, double => absurd trivial double

theorem singleSign_of_text {f : Form} {e : Expr} (readable : f.Readable v)
    (text : f.chars = e.text.toList) (apart : e.beginsWithTwoSigns = false) : f.SingleSign := by
  by_contra double
  obtain ⟨c, d, cs, shape, first, second⟩ := exists_twoSigns readable double
  rw [beginsWithTwoSigns, ← text, shape] at apart
  simp [first, second] at apart

/-! ## Rows -/

/-- The forms are written like the elements and are read as trees like them. -/
structure WritesRow (v : Vocabulary) (fs : List Form) (es : List Expr) : Prop where
  wellFormed : Form.AllWellFormed v fs
  text : Form.rowChars fs = (vector es).text.toList
  single : ∀ f ∈ fs.tail, f.SingleSign
  alike : AllAlike es (Form.trees fs)

theorem exists_row {es : List Expr} (explicit : AllExplicit v es)
    (apart : ∀ e ∈ es.tail, e.beginsWithTwoSigns = false) : ∃ fs, WritesRow v fs es := by
  obtain ⟨fs, wellFormed, written, alike⟩ := exists_forms explicit
  have text : Form.rowChars fs = (vector es).text.toList := by
    simp [Form.rowChars, Form.parted_eq_intercalate written, Expr.text]
  have singles : ∀ {fs : List Form} {es : List Expr}, Form.AllReadable v fs →
      List.Forall₂ (fun f text => Form.chars f = String.toList text) fs (texts es) →
      (∀ e ∈ es, e.beginsWithTwoSigns = false) → ∀ f ∈ fs, f.SingleSign := by
    intro fs
    induction fs with
    | nil => exact fun _ _ _ f member => absurd member List.not_mem_nil
    | cons f fs ih =>
      rintro (_ | ⟨e, es⟩) ⟨readable, all⟩ (_ | ⟨text, written⟩) apart
      obtain ⟨head, tail⟩ := List.forall_mem_cons.1 apart
      exact List.forall_mem_cons.2 ⟨singleSign_of_text readable text head, ih all written tail⟩
  refine ⟨fs, wellFormed, text, ?_, alike⟩
  cases fs with
  | nil => exact fun f member => absurd member List.not_mem_nil
  | cons f fs =>
    cases es with
    | nil => nomatch written
    | cons e es => exact singles wellFormed.2.readable (List.forall₂_cons.1 written).2 apart

theorem exists_rows : ∀ {rows : List (List Expr)}, (∀ row ∈ rows, AllExplicit v row) →
    (∀ row ∈ rows, ∀ e ∈ row.tail, e.beginsWithTwoSigns = false) →
    ∃ forms, List.Forall₂ (WritesRow v) forms rows
  | [], _, _ => ⟨[], .nil⟩
  | row :: rows, explicit, apart => by
    obtain ⟨head, tail⟩ := List.forall_mem_cons.1 explicit
    obtain ⟨apart, aparts⟩ := List.forall_mem_cons.1 apart
    obtain ⟨fs, writes⟩ := exists_row head apart
    obtain ⟨forms, all⟩ := exists_rows tail aparts
    exact ⟨fs :: forms, .cons writes all⟩

theorem toList_intercalate_empty : ∀ ss : List String,
    ("".intercalate ss).toList = ss.flatMap String.toList
  | [] => by simp
  | [s] => by simp
  | s :: t :: ss => by
    rw [String.intercalate_cons_cons, String.toList_append, String.toList_append,
      toList_intercalate_empty (t :: ss)]
    simp

theorem texts_eq_map (es : List Expr) : texts es = es.map text := by
  induction es with
  | nil => rfl
  | cons e es ih => exact congrArg (e.text :: ·) ih

/-- A single row, or rows of one width, at least one of them, and none that is empty. -/
def IsRectangular (rows : List (List Expr)) : Prop :=
  (∃ row, rows = [row]) ∨ rows ≠ [] ∧ ∃ width, width ≠ 0 ∧ ∀ row ∈ rows, row.length = width

/-- The rows of a literal that was read, and its text. -/
theorem IsRead.rows {e : Expr} {rows : List (List Expr)} (read : e.IsRead v)
    (bracketed : e.matrixRows? = some rows) : (∀ row ∈ rows, AllRead v row) ∧ IsRectangular rows ∧
      e.text.toList = rows.flatMap fun row => (vector row).text.toList := by
  cases e with
  | vector es =>
    cases bracketed
    exact ⟨List.forall_mem_singleton.2 read, .inl ⟨es, rfl⟩, by simp⟩
  | matrix es =>
    cases bracketed
    obtain ⟨⟨nonempty, width, positive, vectors⟩, all⟩ := read
    refine ⟨fun row member => ?_, .inr ⟨by simpa using nonempty, width, positive, ?_⟩, ?_⟩
    · obtain ⟨e, inside, rfl⟩ := List.mem_map.1 member
      obtain ⟨es, rfl, -⟩ := vectors e inside
      exact allRead_iff.1 all _ inside
    · intro row member
      obtain ⟨e, inside, rfl⟩ := List.mem_map.1 member
      obtain ⟨es, rfl, length⟩ := vectors e inside
      exact length
    · rw [Expr.text, toList_intercalate_empty, texts_eq_map, List.flatMap_map, List.flatMap_map]
      refine List.flatMap_congr fun e inside => ?_
      obtain ⟨es, rfl, -⟩ := vectors e inside
      rfl
  | _ => cases bracketed

theorem rowsChars_eq {forms : List (List Form)} {rows : List (List Expr)}
    (written : List.Forall₂ (WritesRow v) forms rows) :
    Form.rowsChars forms = rows.flatMap fun row => (vector row).text.toList := by
  induction written with
  | nil => rfl
  | cons writes _ ih => rw [Form.rowsChars, writes.text, ih, List.flatMap_cons]

theorem AllAlike.length_eq : ∀ {es es' : List Expr}, AllAlike es es' → es'.length = es.length
  | [], [], _ => rfl
  | _ :: _, _ :: _, ⟨_, alike⟩ => congrArg (· + 1) alike.length_eq

/-- No form is read as a vector or a matrix. -/
theorem tree_bare : ∀ f : Form, f.tree.isVector = false ∧ ∀ rows, f.tree ≠ .matrix rows
  | .number _ | .word _ | .signed .. | .binary .. | .call .. => ⟨rfl, fun _ same => nomatch same⟩
  | .paren f => tree_bare f

/-- The bracket of one row of forms. -/
theorem bracketOf_trees (fs : List Form) (first last : Nat) :
    bracketOf [Form.trees fs] first last = .ok (.vector (Form.trees fs)) := by
  unfold bracketOf
  split
  next inner shape =>
    obtain ⟨shape, -⟩ := List.cons.inj shape
    cases fs with
    | nil => cases shape
    | cons f fs => exact absurd (List.cons.inj shape).1 ((tree_bare f).2 inner)
  next es _ shape =>
    obtain ⟨rfl, -⟩ := List.cons.inj shape
    cases fs with
    | nil => rfl
    | cons f fs => simp [Form.trees, (tree_bare f).1]
  next _ other => exact absurd rfl (other _)

/-- The bracket of several rows of one width. -/
theorem bracketOf_rows {row row' : List Expr} {rows : List (List Expr)} {width : Nat}
    (positive : width ≠ 0) (all : ∀ r ∈ row :: row' :: rows, r.length = width) (first last : Nat) :
    bracketOf (row :: row' :: rows) first last =
      .ok (.matrix ((row :: row' :: rows).map .vector)) := by
  obtain ⟨head, tail⟩ := List.forall_mem_cons.1 all
  have several : bracketOf (row :: row' :: rows) first last =
      matrixOf (.vector row :: (row' :: rows).map .vector) first last := by
    unfold bracketOf
    split
    next several => cases several
    next several => cases several
    next => rfl
  rw [several]
  have equal : ((row' :: rows).map Expr.vector).any
      (·.elements.length != (vector row).elements.length) = false := by
    refine List.any_eq_false.2 fun e member => ?_
    obtain ⟨r, inside, rfl⟩ := List.mem_map.1 member
    simp [elements, tail r inside, head]
  have nonempty : (vector row).elements.length ≠ 0 := by
    rw [elements, head]
    exact positive
  simp only [matrixOf, equal, nonempty, Bool.false_eq_true, if_false]
  rfl

/-- The rows of forms are read as a vector or a matrix with these rows. -/
theorem exists_bracketOf {forms : List (List Form)}
    (regular : IsRectangular (forms.map Form.trees)) :
    ∃ e, (∀ first last, bracketOf (forms.map Form.trees) first last = .ok e) ∧
      e.matrixRows? = some (forms.map Form.trees) := by
  rcases regular with ⟨row, single⟩ | ⟨nonempty, width, positive, all⟩
  · obtain ⟨fs, rfl, rfl⟩ := List.map_eq_singleton_iff.1 single
    exact ⟨_, bracketOf_trees fs, rfl⟩
  · rcases forms with _ | ⟨fs, _ | ⟨fs', forms⟩⟩
    · exact absurd rfl nonempty
    · exact ⟨_, bracketOf_trees fs, rfl⟩
    · exact ⟨_, bracketOf_rows positive all, by simp [matrixRows?, elements, Function.comp_def]⟩

theorem IsRectangular.ne_nil {rows : List (List Expr)} (regular : IsRectangular rows) :
    rows ≠ [] := by
  rcases regular with ⟨row, rfl⟩ | ⟨nonempty, -⟩
  · exact List.cons_ne_nil _ _
  · exact nonempty

theorem IsRectangular.of_alike {rows rows' : List (List Expr)} (regular : IsRectangular rows)
    (alike : List.Forall₂ AllAlike rows rows') : IsRectangular rows' := by
  rcases regular with ⟨row, rfl⟩ | ⟨nonempty, width, positive, all⟩
  · cases alike with
    | cons _ rest =>
      cases rest
      exact .inl ⟨_, rfl⟩
  · refine .inr ⟨fun none => nonempty ?_, width, positive, ?_⟩
    · subst none
      cases alike
      rfl
    · clear nonempty
      induction alike with
      | nil => exact fun _ member => absurd member List.not_mem_nil
      | cons here _ ih =>
        obtain ⟨head, tail⟩ := List.forall_mem_cons.1 all
        exact List.forall_mem_cons.2 ⟨here.length_eq.trans head, ih tail⟩

/-- A vector or a matrix is read back with its rows and their entries. -/
theorem parse_text_rows {source : String} {e : Expr} {rows : List (List Expr)}
    (done : parse v source = .ok e) (bracketed : e.matrixRows? = some rows)
    (entries : ∀ row ∈ rows, ∀ entry ∈ row,
      entry.IsEntry v (Representable Decimal.exactDigits))
    (apart : ∀ row ∈ rows, ∀ entry ∈ row.tail, entry.beginsWithTwoSigns = false) :
    ∃ e' rows', parse v e.text = .ok e' ∧ e'.matrixRows? = some rows' ∧
      List.Forall₂ AllAlike rows rows' := by
  obtain ⟨read, regular, text⟩ := (isRead_parse done).rows bracketed
  have explicit : ∀ row ∈ rows, AllExplicit v row := fun row member =>
    (read row member).allExplicit (allEntries_iff.2 (entries row member))
  obtain ⟨forms, writes⟩ := exists_rows explicit apart
  have alike : List.Forall₂ AllAlike rows (forms.map Form.trees) :=
    List.forall₂_map_right_iff.2 (writes.flip.imp fun _ _ writes => writes.alike)
  obtain ⟨e', tree, bracketed'⟩ := exists_bracketOf (regular.of_alike alike)
  refine ⟨e', forms.map Form.trees, ?_, bracketed', alike⟩
  have wellFormed : ∀ fs ∈ forms, Form.AllWellFormed v fs ∧ ∀ f ∈ fs.tail, f.SingleSign :=
    ((List.forall₂_and_left _ _).1
      (writes.imp fun _ _ writes => ⟨⟨writes.wellFormed, writes.single⟩, writes⟩)).1
  have trees : forms.map (Form.reads v) = forms.map Form.trees :=
    List.map_congr_left fun fs member => (wellFormed fs member).1.reads_eq
  have nonempty : forms ≠ [] := by
    rintro rfl
    cases alike
    exact regular.ne_nil rfl
  rw [← String.ofList_toList (s := e.text), text, ← rowsChars_eq writes]
  refine Form.parse_rows nonempty (fun fs member => ?_) (trees ▸ tree)
  exact ⟨(wellFormed fs member).1.readable, (wellFormed fs member).2⟩

/-- `1` and `-x` above `y^2` and `sqrt(x)`. -/
def signedRows : List (List Form) :=
  [[.number (Decimal.numeral 1), .signed .negative (.word "x")],
    [.binary .power false (.word "y") (.number (Decimal.numeral 2)), .call "sqrt" [.word "x"]]]

theorem rowReadable_signedRows :
    ∀ fs ∈ signedRows, Form.AllWellFormed Context.initial.vocabulary fs ∧
      ∀ f ∈ fs.tail, f.SingleSign := by
  have letter : ∀ name ∈ ["x", "y"], (Form.word name).WellFormed Context.initial.vocabulary := by
    refine List.forall_mem_cons.2 ⟨?_, List.forall_mem_singleton.2 ?_⟩ <;>
      exact ⟨by decide +kernel, .inr (by decide), by decide⟩
  have x := letter "x" (.head _)
  have y := letter "y" (.tail _ (.head _))
  have call : (Form.call "sqrt" [.word "x"]).WellFormed Context.initial.vocabulary :=
    ⟨by decide +kernel, by decide, x, trivial⟩
  exact List.forall_mem_cons.2 ⟨⟨⟨trivial, ⟨x, by decide⟩, trivial⟩,
      List.forall_mem_singleton.2 (by decide : Edge.name ≠ .sign)⟩,
    List.forall_mem_singleton.2 ⟨⟨⟨y, trivial, by decide, by decide, by simp⟩, call, trivial⟩,
      List.forall_mem_singleton.2 trivial⟩⟩

theorem isEntry_numeral {c : Nat} (small : c < 10) :
    (literal (Decimal.numeral c).decimal true).IsEntry v (Representable Decimal.exactDigits) := by
  have fits : Representable 1 ((c : ℤ) : ℚ) := representable_int (by simpa using small) (by decide)
  rw [Int.cast_natCast] at fits
  rw [Decimal.decimal_numeral]
  exact ⟨c, Decimal.toRat?_nat c, fits.mono (by decide)⟩

theorem isEntry_signedRows : ∀ row ∈ signedRows.map Form.trees, ∀ entry ∈ row,
    entry.IsEntry Context.initial.vocabulary (Representable Decimal.exactDigits) := by
  have x : (var "x").IsEntry Context.initial.vocabulary (Representable Decimal.exactDigits) :=
    (by decide : "x".toList.length = 1)
  have y : (var "y").IsEntry Context.initial.vocabulary (Representable Decimal.exactDigits) :=
    (by decide : "y".toList.length = 1)
  have first : AllEntries Context.initial.vocabulary (Representable Decimal.exactDigits)
      [.literal (Decimal.numeral 1).decimal true, .unary .negative (.var "x")] :=
    ⟨isEntry_numeral (by decide), x, trivial⟩
  have second : AllEntries Context.initial.vocabulary (Representable Decimal.exactDigits)
      [.binary .power false (.var "y") (.literal (Decimal.numeral 2).decimal true),
        .call "sqrt" [.var "x"]] :=
    ⟨⟨rfl, y, isEntry_numeral (by decide)⟩, ⟨by decide, x, trivial⟩, trivial⟩
  exact List.forall_mem_cons.2 ⟨allEntries_iff.1 first,
    List.forall_mem_singleton.2 (allEntries_iff.1 second)⟩

theorem parse_text_signedRows :
    ∃ e, parse Context.initial.vocabulary "[1 -x][y^2 sqrt(x)]" = .ok e ∧
      e.matrixRows? = some (signedRows.map Form.trees) ∧
      ∃ e' rows', parse Context.initial.vocabulary e.text = .ok e' ∧
        e'.matrixRows? = some rows' ∧ List.Forall₂ AllAlike (signedRows.map Form.trees) rows' := by
  have trees : signedRows.map (Form.reads Context.initial.vocabulary) =
      signedRows.map Form.trees :=
    List.map_congr_left fun fs member => (rowReadable_signedRows fs member).1.reads_eq
  have readable : ∀ fs ∈ signedRows, Form.RowReadable Context.initial.vocabulary fs :=
    fun fs member => ⟨(rowReadable_signedRows fs member).1.readable,
      (rowReadable_signedRows fs member).2⟩
  have regular : IsRectangular (signedRows.map Form.trees) :=
    .inr ⟨List.cons_ne_nil _ _, 2, by decide,
      List.forall_mem_cons.2 ⟨rfl, List.forall_mem_singleton.2 rfl⟩⟩
  obtain ⟨e, tree, bracketed⟩ := exists_bracketOf regular
  have nonempty : signedRows ≠ [] := List.cons_ne_nil _ _
  have done := Form.parse_rows nonempty readable (trees ▸ tree)
  have source : String.ofList (Form.rowsChars signedRows) = "[1 -x][y^2 sqrt(x)]" := by
    decide +kernel
  rw [source] at done
  have apart : ∀ row ∈ signedRows.map Form.trees, ∀ entry ∈ row.tail,
      entry.beginsWithTwoSigns = false := by
    decide +kernel
  exact ⟨e, done, bracketed, parse_text_rows done bracketed isEntry_signedRows apart⟩

/-! ## Rows that are read otherwise -/

theorem parse_row (fs : List Form) (wellFormed : Form.AllWellFormed v fs)
    (single : ∀ f ∈ fs.tail, f.SingleSign) :
    parse v (String.ofList (Form.rowChars fs)) = .ok (.vector (Form.trees fs)) := by
  have readable : ∀ fs' ∈ [fs], Form.RowReadable v fs' :=
    List.forall_mem_singleton.2 ⟨wellFormed.readable, single⟩
  have parsed := Form.parse_rows (List.cons_ne_nil _ _) readable fun first last => by
    rw [List.map_singleton, wellFormed.reads_eq]
    exact bracketOf_trees fs first last
  rwa [Form.rowsChars, Form.rowsChars, List.append_nil] at parsed

/-- `--x`. -/
def doubleSign : Form :=
  .signed .negative (.signed .negative (.word "x"))

theorem wellFormed_doubleSign : doubleSign.WellFormed Context.initial.vocabulary := by
  have x : (Form.word "x").WellFormed Context.initial.vocabulary :=
    ⟨by decide +kernel, .inr (by decide), by decide⟩
  exact ⟨⟨x, by decide⟩, by decide⟩

/-- Behind a blank, two signs go on with the element before them. -/
theorem parse_doubleSign : parse Context.initial.vocabulary "[1 --x]" =
    .ok (.vector [.binary .minus false (.literal (.finite false 1 0) true)
      (.unary .negative (.var "x"))]) := by
  have all : Form.AllWellFormed Context.initial.vocabulary
      [.number (Decimal.numeral 1), doubleSign] := ⟨trivial, wellFormed_doubleSign, trivial⟩
  have scans := Form.scansRow all.readable 0 []
  have signed : (Form.signed .negative (.word "x")).WellFormed Context.initial.vocabulary :=
    wellFormed_doubleSign.1
  have closing : Closing ⟨.closeBracket, "]", 6⟩ := .inr (.inr rfl)
  have loose : ∀ {bound : Binding} {last : Option Token},
      Loose true bound ⟨last, [⟨.closeBracket, "]", 6⟩]⟩ :=
    fun {bound last} => loose_of_closing bound last [] closing
  have right : Reads (expression Context.initial.vocabulary 7 true (rightBinding .minus)
      ⟨some ⟨.operator .minus, "-", 3⟩, [⟨.operator .minus, "-", 4⟩, ⟨.identifier, "x", 5⟩,
        ⟨.closeBracket, "]", 6⟩]⟩) ((Form.signed .negative (.word "x")).read _)
      ⟨some ⟨.identifier, "x", 5⟩, [⟨.closeBracket, "]", 6⟩]⟩ :=
    Form.reads_expression signed.readable (by decide) rfl
      (Form.ends_of_closing _ _ [] closing) (reads_chain_nil _ _ _ loose)
  rw [signed.read_eq] at right
  have element : Reads (expression Context.initial.vocabulary 7 true 0
      ⟨some ⟨.openBracket, "[", 0⟩, (Form.rowTokens 0
        [.number (Decimal.numeral 1), doubleSign]).tail⟩)
      (.binary .minus false (.literal (Decimal.numeral 1).decimal true)
        (.unary .negative (.var "x")))
      ⟨some ⟨.identifier, "x", 5⟩, [⟨.closeBracket, "]", 6⟩]⟩ :=
    Parser.reads_expression (reads_operand_number rfl rfl)
      (reads_chain_operator rfl (by decide) rfl right (reads_chain_nil _ _ _ loose))
  have read : Reads (expression Context.initial.vocabulary 7 false 0 ⟨none, Form.rowTokens 0
      [.number (Decimal.numeral 1), doubleSign]⟩) (.vector [.binary .minus false
        (.literal (Decimal.numeral 1).decimal true) (.unary .negative (.var "x"))])
      ⟨some ⟨.closeBracket, "]", 6⟩, []⟩ :=
    Parser.reads_expression
      (reads_operand_bracket rfl rfl
        (reads_row_cons rfl (by decide) (by decide) element (reads_row_nil _ rfl rfl))
        (reads_moreRows_nil _ _ _ rfl) rfl)
      (reads_chain_nil _ _ _ ⟨none, rfl, by simp⟩)
  exact parse_of_reads scans.scan read (next_eq_none rfl)

/-- The text is one of entries that are not the same when they are read back. -/
def Loses (v : Vocabulary) (source : String) : Prop :=
  ∃ e rows, parse v source = .ok e ∧ e.matrixRows? = some rows ∧
    (∀ row ∈ rows, ∀ entry ∈ row, entry.IsEntry v fun _ => True) ∧
    ¬ ∃ e' rows', parse v e.text = .ok e' ∧ e'.matrixRows? = some rows' ∧
      List.Forall₂ AllAlike rows rows'

theorem loses_row {source : String} {es es' : List Expr}
    (done : parse v source = .ok (.vector es)) (entries : AllEntries v (fun _ => True) es)
    (again : parse v (vector es).text = .ok (.vector es')) (differ : ¬ AllAlike es es') :
    Loses v source := by
  refine ⟨.vector es, [es], done, rfl, List.forall_mem_singleton.2 (allEntries_iff.1 entries), ?_⟩
  rintro ⟨e', rows', read, bracketed, alike⟩
  rw [again] at read
  cases read
  cases bracketed
  exact differ (List.forall₂_cons.1 alike).1

theorem loses_signed : Loses Context.initial.vocabulary "[1 (--x)]" := by
  have done : parse Context.initial.vocabulary "[1 (--x)]" =
      .ok (.vector [.literal (Decimal.numeral 1).decimal true, doubleSign.tree]) :=
    parse_row [.number (Decimal.numeral 1), .paren doubleSign]
      ⟨trivial, wellFormed_doubleSign, trivial⟩ (List.forall_mem_singleton.2 trivial)
  have again := parse_doubleSign
  have letter : doubleSign.tree.IsEntry Context.initial.vocabulary fun _ => True :=
    (by decide : "x".toList.length = 1)
  have text : (vector [.literal (Decimal.numeral 1).decimal true, doubleSign.tree]).text =
      "[1 --x]" := by
    decide +kernel
  rw [← text] at again
  exact loses_row done ⟨⟨_, rfl, trivial⟩, letter, trivial⟩ again fun alike => alike.1

theorem parse_digits (v : Vocabulary) (c : Nat) :
    parse v (String.ofList ('[' :: (Decimal.digits c ++ [']']))) =
      .ok (.vector [.literal (.finite false c 0) true]) := by
  have parsed : parse v (String.ofList ('[' :: (Decimal.digits c ++ [']']))) =
      .ok (.vector [.literal (Decimal.numeral c).decimal true]) :=
    parse_row [.number (Decimal.numeral c)] ⟨trivial, trivial⟩
      fun f member => absurd member List.not_mem_nil
  rwa [Decimal.decimal_numeral] at parsed

/-- The text of a number keeps a thousand digits. -/
theorem loses_long : Loses Context.initial.vocabulary
    (String.ofList ('[' :: (Decimal.digits (10 ^ 1000 + 1) ++ [']']))) := by
  have value : (Decimal.finite false (10 ^ 1000) 0).toRat? = some (10 ^ ((1000 : Nat) : ℤ)) := by
    rw [Decimal.toRat?_nat, ← tens_eq_pow, cast_tens]
  have value' : (Decimal.finite false (10 ^ 1000 + 1) 0).toRat? =
      some (10 ^ ((1000 : Nat) : ℤ) + 1) := by
    rw [Decimal.toRat?_nat, Nat.cast_succ, ← tens_eq_pow, cast_tens]
  have shown : (Decimal.finite false (10 ^ 1000 + 1) 0).plain =
      (Decimal.finite false (10 ^ 1000) 0).plain :=
    Decimal.plain_eq_of_round (r := .finite false (10 ^ 999) 1) (by decide +kernel)
      (by decide +kernel)
  have positive := Decimal.ten_zpow_pos ((1000 : Nat) : ℤ)
  obtain ⟨m, mValue, text⟩ := Decimal.exists_numeral value
    ((representable_tens (by decide) (by decide)).mono (by decide))
  rw [if_neg positive.le.not_gt, abs_of_pos positive] at *
  have written : (vector [.literal (.finite false (10 ^ 1000 + 1) 0) true]).text =
      String.ofList (Form.rowChars [.number m]) := by
    rw [Expr.text, texts, texts, Expr.text, shown, text]
    simp [Form.rowChars, Form.parted, Form.chars, String.append_assoc]
  have again : parse Context.initial.vocabulary (String.ofList (Form.rowChars [.number m])) =
      .ok (.vector [.literal m.decimal true]) :=
    parse_row [.number m] ⟨trivial, trivial⟩ fun f member => absurd member List.not_mem_nil
  rw [← written] at again
  refine loses_row (parse_digits _ _) ⟨⟨_, value', trivial⟩, trivial⟩ again fun alike => ?_
  obtain ⟨q, left, right⟩ := alike.1
  rw [value'] at left
  rw [mValue, ← left] at right
  exact (lt_add_one _).ne (Option.some.inj right)

/-- Two signs go on with the element before them, and a number keeps a thousand digits. -/
theorem loses_entries : Loses Context.initial.vocabulary "[1 (--x)]" ∧
    Loses Context.initial.vocabulary
      (String.ofList ('[' :: (Decimal.digits (10 ^ 1000 + 1) ++ [']']))) :=
  ⟨loses_signed, loses_long⟩

end Expr

end Reckon
