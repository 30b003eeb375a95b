import Reckon.Proofs.Frame

/-!
# Entries of scopes

What is found under a name and a kind after an entry has been put in or taken away
(`Scope.find?_insert`, `Scope.find?_erase`), and so what a context looks up.
-/

namespace Reckon

namespace Scope

variable {scope : Scope} {name : String} {kind : EntryKind} {entry : Entry}

theorem find?_eq_some (found : scope.find? name kind = some entry) :
    (name, entry) ∈ scope.entries ∧ entry.kind = kind := by
  obtain ⟨⟨n, e⟩, first, rfl⟩ := Option.map_eq_some_iff.1 found
  have matching := List.find?_some first
  simp only [Bool.and_eq_true, beq_iff_eq] at matching
  obtain ⟨rfl, rfl⟩ := matching
  exact ⟨List.mem_of_find?_eq_some first, rfl⟩

@[simp]
theorem find?_nil : find? ⟨[]⟩ name kind = none := rfl

theorem find?_cons (n : String) (entry : Entry) (rest : List (String × Entry)) :
    find? ⟨(n, entry) :: rest⟩ name kind =
      if n = name ∧ entry.kind = kind then some entry else find? ⟨rest⟩ name kind := by
  unfold find?
  rw [List.find?_cons]
  split
  next here => rw [if_pos (by simpa using here), Option.map_some]
  next other => rw [if_neg (by simpa using other)]

theorem find?_insert (scope : Scope) (name : String) (entry : Entry) (n : String)
    (kind : EntryKind) :
    (scope.insert name entry).find? n kind =
      if n = name ∧ kind = entry.kind then some entry else scope.find? n kind := by
  obtain ⟨es⟩ := scope
  show find? ⟨put name entry es⟩ n kind = _
  induction es with
  | nil =>
    rw [put, find?_cons, find?_nil]
    simp only [eq_comm]
  | cons first rest ih =>
    obtain ⟨m, old⟩ := first
    unfold put
    split
    next replaced =>
      simp only [Bool.and_eq_true, beq_iff_eq] at replaced
      rw [find?_cons, find?_cons, replaced.1, replaced.2]
      grind
    next kept =>
      rw [find?_cons, find?_cons, ih]
      grind

theorem find?_erase (scope : Scope) (name : String) (kind : EntryKind) (n : String)
    (k : EntryKind) :
    (scope.erase name kind).find? n k =
      if n = name ∧ k = kind then none else scope.find? n k := by
  obtain ⟨es⟩ := scope
  unfold erase
  induction es with
  | nil => simp
  | cons first rest ih =>
    obtain ⟨m, old⟩ := first
    rw [List.filter_cons]
    dsimp only
    split
    next kept =>
      rw [find?_cons, find?_cons, ih]
      grind
    next erased =>
      rw [ih, find?_cons]
      grind

/-- An entry under a new name and kind goes to the end. -/
theorem entries_insert (new : scope.find? name entry.kind = none) :
    (scope.insert name entry).entries = scope.entries ++ [(name, entry)] := by
  obtain ⟨es⟩ := scope
  show put name entry es = es ++ [(name, entry)]
  induction es with
  | nil => rfl
  | cons first rest ih =>
    obtain ⟨m, old⟩ := first
    rw [find?_cons] at new
    split at new
    next => cases new
    next other => rw [put, if_neg (by simpa using other), ih new, List.cons_append]

/-- The entries after an insertion. -/
theorem mem_insert {entry' : String × Entry} (member : entry' ∈ (scope.insert name entry).entries) :
    entry'.2 = entry ∨ entry' ∈ scope.entries := by
  change entry' ∈ put name entry scope.entries at member
  generalize scope.entries = es at member ⊢
  induction es with
  | nil =>
    rw [List.mem_singleton.1 member]
    exact .inl rfl
  | cons first rest ih =>
    obtain ⟨m, old⟩ := first
    unfold put at member
    split at member
    · rcases List.mem_cons.1 member with rfl | inside
      · exact .inl rfl
      · exact .inr (.tail _ inside)
    · rcases List.mem_cons.1 member with rfl | inside
      · exact .inr (.head _)
      · exact (ih inside).imp_right (.tail _)

theorem has_eq_true : scope.has name kind = true ↔ ∃ entry, scope.find? name kind = some entry :=
  Option.isSome_iff_exists

theorem has_erase (scope : Scope) (name : String) (kind : EntryKind) (n : String) :
    (scope.erase name kind).has n kind = true ↔ n ≠ name ∧ scope.has n kind = true := by
  unfold has
  rw [find?_erase]
  by_cases same : n = name <;> simp [same]

/-- There is nothing to take away where there is nothing. -/
theorem erase_eq_self (absent : scope.has name kind = false) : scope.erase name kind = scope := by
  have none : scope.find? name kind = none := by simpa [has] using absent
  have each := List.find?_eq_none.1 (Option.map_eq_none_iff.1 none)
  refine congrArg mk (List.filter_eq_self.2 fun entry member => ?_)
  obtain ⟨n, e⟩ := entry
  exact Bool.not_eq_true' _ ▸ Bool.eq_false_iff.2 (each (n, e) member)

/-! ## Kinds -/

theorem function?_eq_some {f : Function} :
    scope.function? name = some f ↔ scope.find? name .function = some (.function f) := by
  unfold function?
  split <;> simp_all

theorem isSome_function? : (scope.function? name).isSome = scope.has name .function := by
  unfold has
  cases found : scope.find? name .function with
  | none => simp [function?, found]
  | some entry =>
    obtain ⟨-, isFunction⟩ := find?_eq_some found
    cases entry with
    | function f => simp [function?, found]
    | constant | native | value => cases isFunction

theorem value?_insert_value (scope : Scope) (name : String) (t : Term) (n : String) :
    (scope.insert name (.value t)).value? n = if n = name then some t else scope.value? n := by
  unfold value?
  rw [find?_insert]
  by_cases same : n = name
  · rw [if_pos ⟨same, rfl⟩, if_pos same]
  · rw [if_neg (fun h => same h.1), if_neg same]

theorem function?_insert_function (scope : Scope) (name : String) (f : Function) (n : String) :
    (scope.insert name (.function f)).function? n =
      if n = name then some f else scope.function? n := by
  unfold function?
  rw [find?_insert]
  by_cases same : n = name
  · rw [if_pos ⟨same, rfl⟩, if_pos same]
  · rw [if_neg (fun h => same h.1), if_neg same]

theorem value?_insert_function (scope : Scope) (name : String) (f : Function) (n : String) :
    (scope.insert name (.function f)).value? n = scope.value? n := by
  unfold value?
  rw [find?_insert, if_neg]
  rintro ⟨-, equal⟩
  cases equal

theorem function?_insert_value (scope : Scope) (name : String) (t : Term) (n : String) :
    (scope.insert name (.value t)).function? n = scope.function? n := by
  unfold function?
  rw [find?_insert, if_neg]
  rintro ⟨-, equal⟩
  cases equal

end Scope

namespace Context

variable {ctx ctx' : Context} {name : String}

theorem scopes_eq (ctx : Context) : ctx.scopes = ctx.current :: ctx.scopes.tail := by
  obtain ⟨params, globals, inner, generated⟩ := ctx
  cases inner <;> rfl

theorem scopes_updateCurrent (ctx : Context) (f : Scope → Scope) :
    (ctx.updateCurrent f).scopes = f ctx.current :: ctx.scopes.tail := by
  obtain ⟨params, globals, inner, generated⟩ := ctx
  cases inner <;> rfl

theorem current_mem_scopes (ctx : Context) : ctx.current ∈ ctx.scopes := by
  rw [scopes_eq]
  exact .head _

theorem globals_mem_scopes (ctx : Context) : ctx.globals ∈ ctx.scopes :=
  List.mem_append_right _ (.head _)

theorem SameNames.scopes (same : ctx.SameNames ctx') : ctx'.scopes = ctx.scopes := by
  unfold Context.scopes
  rw [same.globals, same.inner]

/-- The innermost scope is gone, the others are as they were. -/
theorem scopes_pop (popped : ctx.pop = .ok ctx') :
    ∃ top, ctx.scopes = top :: ctx'.scopes ∧ ctx'.globals = ctx.globals := by
  obtain ⟨top, outer, shape, rfl⟩ := pop_eq_ok.1 popped
  refine ⟨top, ?_, rfl⟩
  unfold scopes
  rw [shape]
  rfl

/-- An entry of the current scope does not hide a global one of another kind. -/
theorem globals_find?_insert {entry : Entry} {kind : EntryKind} (other : kind ≠ entry.kind)
    (ctx : Context) (name n : String) :
    (ctx.updateCurrent (·.insert name entry)).globals.find? n kind =
      ctx.globals.find? n kind := by
  obtain ⟨params, globals, inner, generated⟩ := ctx
  cases inner with
  | nil =>
    show (globals.insert name entry).find? n kind = globals.find? n kind
    rw [Scope.find?_insert, if_neg fun same => other same.2]
  | cons scope outer => rfl

theorem lookupFunction_eq_none :
    ctx.lookupFunction name = none ↔ ∀ scope ∈ ctx.scopes, scope.has name .function = false := by
  unfold lookupFunction
  rw [List.findSome?_eq_none_iff]
  simp only [← Scope.isSome_function?, Option.isSome_eq_false_iff, Option.isNone_iff_eq_none]

theorem mem_of_lookupFunction {f : Function} (found : ctx.lookupFunction name = some f) :
    ∃ scope ∈ ctx.scopes, (name, .function f) ∈ scope.entries := by
  obtain ⟨scope, member, here⟩ := List.exists_of_findSome?_eq_some found
  exact ⟨scope, member, (Scope.find?_eq_some (Scope.function?_eq_some.1 here)).1⟩

/-- In a new session there are no functions but natives. -/
theorem function?_initial (name : String) : initial.globals.function? name = none := by
  refine Option.eq_none_iff_forall_ne_some.2 fun f found => ?_
  have inside := (Scope.find?_eq_some (Scope.function?_eq_some.1 found)).1
  rcases List.mem_append.1 inside with constant | native
  · obtain ⟨c, -, equal⟩ := List.mem_map.1 constant
    cases equal
  · obtain ⟨n, -, equal⟩ := List.mem_map.1 native
    cases equal

theorem mem_of_native? {n : Native} (found : ctx.native? name = some n) :
    (name, .native n) ∈ ctx.globals.entries := by
  unfold native? Scope.native? at found
  split at found
  next here =>
    cases found
    exact (Scope.find?_eq_some here).1
  next => cases found

end Context

end Reckon
