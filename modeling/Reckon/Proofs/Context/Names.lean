import Mathlib.Data.List.Nodup
import Mathlib.Data.List.Perm.Subperm
import Reckon.Proofs.Operation
import Reckon.Proofs.Scope

/-!
# The names of functions

A function is defined in the innermost scope under a name that no scope has, so a name stands for
at most one function in the whole stack and never for a native or a constant
(`Context.WellNamed`). This holds in every context that operations lead to, also while series and
the search for roots define functions of their own; a name that has just been generated can
always be given to one (`function_names_unique`).
-/

namespace Reckon

namespace Context

/-! ## Generated names -/

theorem letters_of_lt {n : Nat} (small : n < 26) : letters n = [Char.ofNat (97 + n)] := by
  unfold letters
  rw [if_pos small, Nat.mod_eq_of_lt small]

theorem letters_of_le {n : Nat} (large : 26 ≤ n) :
    letters n = letters (n / 26) ++ [Char.ofNat (97 + n % 26)] := by
  rw [letters, if_neg (Nat.not_lt.2 large)]

theorem letters_ne_nil (n : Nat) : letters n ≠ [] := by
  rcases Nat.lt_or_ge n 26 with small | large
  · simp [letters_of_lt small]
  · simp [letters_of_le large]

/-- A numeral of one digit is not one of several. -/
theorem letters_ne_of_lt_of_le {n m : Nat} (small : n < 26) (large : 26 ≤ m) :
    letters n ≠ letters m := by
  rw [letters_of_lt small, letters_of_le large]
  intro equal
  have parts : [] ++ [Char.ofNat (97 + n)] = letters (m / 26) ++ [Char.ofNat (97 + m % 26)] := equal
  exact letters_ne_nil _ (List.append_inj' parts rfl).1.symm

/-- The digits `a` to `z` are different characters. -/
theorem digit_inj {a b : Nat} (small : a < 26) (small' : b < 26)
    (equal : Char.ofNat (97 + a) = Char.ofNat (97 + b)) : a = b := by
  have values : ∀ a < 26, (Char.ofNat (97 + a)).toNat = 97 + a := by decide
  have same := congrArg Char.toNat equal
  rw [values a small, values b small'] at same
  exact Nat.add_left_cancel same

theorem letters_inj {n m : Nat} (equal : letters n = letters m) : n = m := by
  induction n using Nat.strongRecOn generalizing m with
  | ind n ih =>
    rcases Nat.lt_or_ge n 26 with small | large <;> rcases Nat.lt_or_ge m 26 with small' | large'
    · rw [letters_of_lt small, letters_of_lt small'] at equal
      exact digit_inj small small' (List.singleton_inj.1 equal)
    · exact absurd equal (letters_ne_of_lt_of_le small large')
    · exact absurd equal.symm (letters_ne_of_lt_of_le small' large)
    · rw [letters_of_le large, letters_of_le large'] at equal
      obtain ⟨front, last⟩ := List.append_inj' equal rfl
      have upper := ih (n / 26) (by omega) front
      have lower := digit_inj (Nat.mod_lt n (by decide)) (Nat.mod_lt m (by decide))
        (List.singleton_inj.1 last)
      rw [← Nat.div_add_mod n 26, ← Nat.div_add_mod m 26, upper, lower]

theorem generatedName_inj {n m : Nat} (equal : generatedName n = generatedName m) : n = m :=
  letters_inj (List.cons.inj (String.ofList_inj.1 equal)).2

/-- The search passes over names that are taken and stops at the first that is not, if it has the
fuel. -/
theorem exists_freshFrom (taken : String → Bool) (fuel n : Nat) :
    ∃ skipped ≤ fuel, freshFrom taken fuel n = (generatedName (n + skipped), n + skipped + 1) ∧
      (∀ i < skipped, taken (generatedName (n + i)) = true) ∧
      (skipped < fuel → taken (generatedName (n + skipped)) = false) := by
  induction fuel generalizing n with
  | zero =>
    exact ⟨0, Nat.le_refl 0, rfl, fun i none => absurd none (Nat.not_lt_zero i),
      fun none => absurd none (Nat.lt_irrefl 0)⟩
  | succ fuel ih =>
    unfold freshFrom
    split
    next here =>
      obtain ⟨skipped, bound, found, earlier, stops⟩ := ih (n + 1)
      have shift : ∀ i, n + 1 + i = n + (i + 1) := by omega
      rw [shift] at found stops
      refine ⟨skipped + 1, Nat.succ_le_succ bound, found, fun i small => ?_,
        fun less => stops (Nat.lt_of_succ_lt_succ less)⟩
      cases i with
      | zero => exact here
      | succ i => exact shift i ▸ earlier i (Nat.lt_of_succ_lt_succ small)
    next free =>
      exact ⟨0, Nat.zero_le _, rfl, fun i none => absurd none (Nat.not_lt_zero i),
        fun _ => Bool.eq_false_iff.2 free⟩

/-- More names are tried than can be taken. -/
theorem freshFrom_not_taken (taken : String → Bool) {names : List String}
    (listed : ∀ name, taken name = true → name ∈ names) (n : Nat) :
    taken (freshFrom taken names.length n).1 = false := by
  refine Bool.eq_false_iff.2 fun clash => ?_
  obtain ⟨skipped, bound, found, earlier, stops⟩ := exists_freshFrom taken names.length n
  rw [found] at clash
  have all : ∀ i ≤ names.length, taken (generatedName (n + i)) = true := by
    intro i small
    -- a search that stops at a name that is taken has no fuel left
    obtain rfl : skipped = names.length := Nat.le_antisymm bound (Nat.le_of_not_lt fun less => by
      rw [stops less] at clash
      cases clash)
    rcases Nat.lt_or_eq_of_le small with less | rfl
    · exact earlier i less
    · exact clash
  -- one name more than there are, all different and all taken
  let tried := (List.range (names.length + 1)).map fun i => generatedName (n + i)
  have distinct : tried.Nodup := by
    refine List.Nodup.map (fun i j equal => ?_) List.nodup_range
    exact Nat.add_left_cancel (generatedName_inj equal)
  have inside : tried ⊆ names := by
    intro name member
    obtain ⟨i, bound, rfl⟩ := List.mem_map.1 member
    exact listed _ (all i (Nat.le_of_lt_succ (List.mem_range.1 bound)))
  have fits := (distinct.subperm inside).length_le
  rw [List.length_map, List.length_range] at fits
  exact Nat.not_succ_le_self _ fits

/-- The names of all entries. -/
def entryNames (ctx : Context) : List String :=
  ctx.scopes.flatMap fun scope => scope.entries.map (·.1)

theorem length_entryNames (ctx : Context) :
    ctx.scopes.foldl (fun n scope => n + scope.size) 0 = ctx.entryNames.length := by
  have counted : ∀ (scopes : List Scope) (n : Nat),
      scopes.foldl (fun n scope => n + scope.size) n =
        n + (scopes.flatMap fun scope => scope.entries.map (·.1)).length := by
    intro scopes
    induction scopes with
    | nil => exact fun _ => rfl
    | cons scope scopes ih =>
      intro n
      rw [List.foldl_cons, ih, List.flatMap_cons, List.length_append, List.length_map,
        Nat.add_assoc]
      rfl
  rw [counted, Nat.zero_add]
  rfl

theorem mem_entryNames {ctx : Context} {scope : Scope} {name : String} {kind : EntryKind}
    (member : scope ∈ ctx.scopes) (taken : scope.has name kind = true) :
    name ∈ ctx.entryNames := by
  obtain ⟨entry, found⟩ := Scope.has_eq_true.1 taken
  exact List.mem_flatMap.2 ⟨scope, member,
    List.mem_map.2 ⟨(name, entry), (Scope.find?_eq_some found).1, rfl⟩⟩

/-- The name that is generated is the first one from the counter on that is not taken, and the
counter is moved past it. -/
theorem exists_freshName (ctx : Context) :
    ∃ skipped ≤ ctx.entryNames.length, ctx.freshName =
        (generatedName (ctx.generated + skipped),
          { ctx with generated := ctx.generated + skipped + 1 }) ∧
      ∀ i < skipped, (ctx.isFunction (generatedName (ctx.generated + i)) ||
        ctx.isConstant (generatedName (ctx.generated + i))) = true := by
  obtain ⟨skipped, bound, found, earlier, -⟩ := exists_freshFrom
    (fun name => ctx.isFunction name || ctx.isConstant name) ctx.entryNames.length ctx.generated
  refine ⟨skipped, bound, ?_, earlier⟩
  unfold freshName
  rw [length_entryNames]
  dsimp only
  rw [found]

/-- A generated name is the name of no function and no constant. -/
theorem freshName_not_taken (ctx : Context) :
    (ctx.isFunction ctx.freshName.1 || ctx.isConstant ctx.freshName.1) = false := by
  unfold freshName
  rw [length_entryNames]
  refine freshFrom_not_taken (fun name => ctx.isFunction name || ctx.isConstant name)
    (fun name taken => ?_) ctx.generated
  rcases Bool.or_eq_true_iff.1 taken with function | constant
  · rcases Bool.or_eq_true_iff.1 function with native | defined
    · exact mem_entryNames ctx.globals_mem_scopes native
    · obtain ⟨f, found⟩ := Option.isSome_iff_exists.1 defined
      obtain ⟨scope, member, here⟩ := List.exists_of_findSome?_eq_some found
      exact mem_entryNames member (Scope.has_eq_true.2 ⟨_, Scope.function?_eq_some.1 here⟩)
  · exact mem_entryNames ctx.globals_mem_scopes constant

/-- A function can be defined under a name that has just been generated. -/
theorem define_freshName (ctx : Context) {f : Function} (named : f.name = ctx.freshName.1) :
    ∃ ctx', ctx.freshName.2.define f = .ok ctx' := by
  obtain ⟨function, constant⟩ := Bool.or_eq_false_iff.1 ctx.freshName_not_taken
  obtain ⟨native, undefined⟩ := Bool.or_eq_false_iff.1 function
  rw [← named] at native constant undefined
  exact ⟨_, define_eq_ok.2 ⟨native, constant,
    Option.isNone_iff_eq_none.1 (Option.isSome_eq_false_iff.1 undefined), rfl⟩⟩

/-! ## One function for each name -/

/-- No function of one scope has the name of a function of the other. -/
def Apart (scope outer : Scope) : Prop :=
  ∀ name, scope.has name .function = true → outer.has name .function = false

/-- A name stands for at most one function in all scopes, and not for a native or a constant. -/
structure WellNamed (ctx : Context) : Prop where
  once : ctx.scopes.Pairwise Apart
  apart : ∀ scope ∈ ctx.scopes, ∀ name, scope.has name .function = true →
    ctx.isNative name = false ∧ ctx.isConstant name = false

theorem wellNamed_initial : initial.WellNamed := by
  refine ⟨List.pairwise_singleton _ _, fun scope member name taken => ?_⟩
  cases List.mem_singleton.1 member
  rw [← Scope.isSome_function?, function?_initial name] at taken
  cases taken

variable {ctx ctx' : Context}

/-- A value, or a function under a new name, in the current scope. -/
theorem WellNamed.insert (wellNamed : ctx.WellNamed) {name : String} {entry : Entry}
    (kind : entry.kind = .value ∨ entry.kind = .function ∧ ctx.isNative name = false ∧
      ctx.isConstant name = false ∧ ctx.lookupFunction name = none) :
    (ctx.updateCurrent (·.insert name entry)).WellNamed := by
  have native : ∀ n, (ctx.updateCurrent (·.insert name entry)).isNative n = ctx.isNative n := by
    intro n
    refine congrArg Option.isSome (globals_find?_insert ?_ ctx name n)
    rcases kind with value | ⟨function, -⟩ <;> simp [*]
  have constant : ∀ n,
      (ctx.updateCurrent (·.insert name entry)).isConstant n = ctx.isConstant n := by
    intro n
    refine congrArg Option.isSome (globals_find?_insert ?_ ctx name n)
    rcases kind with value | ⟨function, -⟩ <;> simp [*]
  -- a function of the changed scope was there before, or it is the new one
  have changed : ∀ n, (ctx.current.insert name entry).has n .function = true →
      ctx.current.has n .function = true ∨ n = name ∧ ctx.isNative name = false ∧
        ctx.isConstant name = false ∧ ctx.lookupFunction name = none := by
    intro n taken
    unfold Scope.has at taken ⊢
    rw [Scope.find?_insert] at taken
    split at taken
    next same =>
      rcases kind with value | ⟨-, new⟩
      · rw [value] at same
        cases same.2
      · exact .inr ⟨same.1, new⟩
    next => exact .inl taken
  have once := wellNamed.once
  rw [scopes_eq, List.pairwise_cons] at once
  refine ⟨?_, ?_⟩
  · rw [scopes_updateCurrent, List.pairwise_cons]
    refine ⟨fun outer member n taken => ?_, once.2⟩
    rcases changed n taken with old | ⟨rfl, -, -, new⟩
    · exact once.1 outer member n old
    · exact lookupFunction_eq_none.1 new outer (List.mem_of_mem_tail member)
  · intro scope member n taken
    rw [native, constant]
    rw [scopes_updateCurrent] at member
    rcases List.mem_cons.1 member with rfl | outer
    · rcases changed n taken with old | ⟨rfl, native, constant, -⟩
      · exact wellNamed.apart ctx.current ctx.current_mem_scopes n old
      · exact ⟨native, constant⟩
    · exact wellNamed.apart scope (List.mem_of_mem_tail outer) n taken

theorem WellNamed.define (wellNamed : ctx.WellNamed) {f : Function}
    (done : ctx.define f = .ok ctx') : ctx'.WellNamed := by
  obtain ⟨native, constant, new, rfl⟩ := define_eq_ok.1 done
  exact wellNamed.insert (.inr ⟨rfl, native, constant, new⟩)

theorem map_erase_eq_self {name : String} {scopes : List Scope}
    (absent : ∀ scope ∈ scopes, scope.has name .function = false) :
    scopes.map (·.erase name .function) = scopes :=
  (List.map_congr_left fun scope member => Scope.erase_eq_self (absent scope member)).trans
    (List.map_id scopes)

/-- Where a name stands for one function at most, the innermost one is all there is. -/
theorem eraseInnermost_eq_map (name : String) {scopes : List Scope}
    (once : scopes.Pairwise Apart) :
    eraseInnermost name scopes = scopes.map (·.erase name .function) := by
  induction scopes with
  | nil => rfl
  | cons scope outer ih =>
    obtain ⟨first, others⟩ := List.pairwise_cons.1 once
    unfold eraseInnermost
    rw [List.map_cons, Scope.isSome_function?]
    split
    next taken =>
      rw [map_erase_eq_self fun scope' member => first scope' member name taken]
    next absent => rw [ih others, Scope.erase_eq_self (Bool.eq_false_iff.2 absent)]

/-- To take a function away is to take it away from every scope. -/
theorem WellNamed.remove_eq (wellNamed : ctx.WellNamed) {name : String} {f : Function}
    (done : ctx.remove name = .ok (f, ctx')) :
    ctx'.inner = ctx.inner.map (·.erase name .function) ∧
      ctx'.globals = ctx.globals.erase name .function := by
  obtain ⟨inside, -, across⟩ := List.pairwise_append.1 wellNamed.once
  unfold Context.remove at done
  split at done
  next => cases done
  next =>
    split at done
    next taken =>
      cases done
      obtain ⟨scope, member, here⟩ := List.any_eq_true.1 taken
      rw [Scope.isSome_function?] at here
      have absent := across scope member ctx.globals (.head _) name here
      exact ⟨eraseInnermost_eq_map name inside, (Scope.erase_eq_self absent).symm⟩
    next free =>
      cases done
      refine ⟨(map_erase_eq_self fun scope member => Bool.eq_false_iff.2 fun taken => ?_).symm, rfl⟩
      rw [← Scope.isSome_function?] at taken
      exact free (List.any_eq_true.2 ⟨scope, member, taken⟩)

theorem WellNamed.scopes_remove (wellNamed : ctx.WellNamed) {name : String} {f : Function}
    (done : ctx.remove name = .ok (f, ctx')) :
    ctx'.scopes = ctx.scopes.map (·.erase name .function) := by
  obtain ⟨inner, globals⟩ := wellNamed.remove_eq done
  unfold scopes
  rw [inner, globals, List.map_append]
  rfl

theorem WellNamed.remove (wellNamed : ctx.WellNamed) {name : String} {f : Function}
    (done : ctx.remove name = .ok (f, ctx')) : ctx'.WellNamed := by
  have globals := (wellNamed.remove_eq done).2
  have kept : ∀ n kind, kind ≠ .function → ctx'.globals.has n kind = ctx.globals.has n kind := by
    intro n kind other
    rw [globals]
    unfold Scope.has
    rw [Scope.find?_erase, if_neg fun same => other same.2]
  refine ⟨?_, ?_⟩
  · rw [wellNamed.scopes_remove done, List.pairwise_map]
    refine wellNamed.once.imp fun {scope outer} apart n taken => ?_
    refine Bool.eq_false_iff.2 fun taken' => ?_
    have absent := apart n ((Scope.has_erase scope name .function n).1 taken).2
    rw [((Scope.has_erase outer name .function n).1 taken').2] at absent
    cases absent
  · intro scope member n taken
    rw [wellNamed.scopes_remove done] at member
    obtain ⟨scope', old, rfl⟩ := List.mem_map.1 member
    have apart := wellNamed.apart scope' old n ((Scope.has_erase scope' name .function n).1 taken).2
    unfold isNative isConstant
    rw [kept n .native nofun, kept n .constant nofun]
    exact apart

theorem WellNamed.lookupFunction_remove (wellNamed : ctx.WellNamed) {name : String} {f : Function}
    (done : ctx.remove name = .ok (f, ctx')) : ctx'.lookupFunction name = none := by
  refine lookupFunction_eq_none.2 fun scope member => Bool.eq_false_iff.2 fun taken => ?_
  rw [wellNamed.scopes_remove done] at member
  obtain ⟨scope', -, rfl⟩ := List.mem_map.1 member
  exact ((Scope.has_erase scope' name .function name).1 taken).1 rfl

instance : Invariant WellNamed where
  sameNames := by
    intro ctx ctx' same wellNamed
    refine ⟨same.scopes ▸ wellNamed.once, fun scope member name taken => ?_⟩
    unfold isNative isConstant
    rw [same.globals]
    exact wellNamed.apart scope (same.scopes ▸ member) name taken
  push := by
    intro ctx wellNamed
    have once : ({} :: ctx.scopes).Pairwise Apart :=
      List.pairwise_cons.2 ⟨fun _ _ _ taken => (nomatch taken), wellNamed.once⟩
    refine ⟨once, fun scope member name taken => ?_⟩
    rcases List.mem_cons.1 member with rfl | old
    · cases taken
    · exact wellNamed.apart scope old name taken
  pop := by
    intro ctx ctx' wellNamed popped
    obtain ⟨top, scopes, globals⟩ := scopes_pop popped
    have once := wellNamed.once
    rw [scopes] at once
    refine ⟨once.of_cons, fun scope member name taken => ?_⟩
    unfold isNative isConstant
    rw [globals]
    exact wellNamed.apart scope (scopes ▸ List.mem_cons_of_mem top member) name taken
  bind := fun wellNamed => wellNamed.insert (.inl rfl)
  remove := fun wellNamed done => wellNamed.remove done

end Context

/-! ## Every context -/

open Calc Context

theorem preserves_define_wellNamed (f : Function) : Keeps (Preserves WellNamed) (Calc.define f) :=
  preserves_define fun {_ _} wellNamed done => wellNamed.define done

theorem wellNamed_reached (ops : List Operation) : (Operation.reached ops).WellNamed :=
  (Operation.keeps_actAll ⟨fun f _ => preserves_define_wellNamed f,
    keeps_differentiate preserves_define_wellNamed, keeps_integrate preserves_define_wellNamed⟩ ops
    (Nat.le_refl _)).rel initial wellNamed_initial

theorem calcDefine_eq (f : Function) (ctx : Context) :
    (∃ ctx', Calc.define f ctx = (.ok (), ctx')) ∨
      ∃ fault, Calc.define f ctx = (.error fault, ctx) := by
  unfold Calc.define
  split
  next ctx' _ => exact .inl ⟨ctx', rfl⟩
  next fault _ => exact .inr ⟨fault, rfl⟩

/-- A definition that fails changes nothing. -/
theorem defineFunction_error {source : String} {ctx : Context} {fault : Fault}
    (failed : (defineFunction source ctx).1 = .error fault) :
    (defineFunction source ctx).2 = ctx := by
  unfold defineFunction at failed ⊢
  rw [tree_bind] at failed ⊢
  cases done : ctx.read source [] with
  | error fault => rfl
  | ok e =>
    rw [done] at failed
    cases e
    case definition name params body text =>
      rcases calcDefine_eq ⟨name, params, body, text⟩ ctx with ⟨ctx', run⟩ | ⟨fault, run⟩
      · dsimp only at failed
        rw [bind_ok run] at failed
        cases failed
      · dsimp only
        rw [bind_error run]
    all_goals rfl

/-- In every context that operations lead to, a function has its name for itself in all scopes. So
a function that is taken away is gone; a definition that fails changes nothing, and one under a
name just generated does not fail. -/
theorem function_names_unique (ops : List Operation) :
    let ctx := Operation.reached ops
    (ctx.scopes.Pairwise fun scope outer =>
      ∀ name, scope.has name .function = true → outer.has name .function = false) ∧
    (∀ scope ∈ ctx.scopes, ∀ name, scope.has name .function = true →
      ctx.isNative name = false ∧ ctx.isConstant name = false) ∧
    (∀ name f, (removeFunction name ctx).1 = .ok f →
      (removeFunction name ctx).2.lookupFunction name = none) ∧
    (∀ f fault, (Calc.define f ctx).1 = .error fault → (Calc.define f ctx).2 = ctx) ∧
    (∀ source fault, (defineFunction source ctx).1 = .error fault →
      (defineFunction source ctx).2 = ctx) ∧
    (∀ f, (Calc.freshName ctx).1 = .ok f.name →
      (Calc.define f (Calc.freshName ctx).2).1 = .ok ()) := by
  intro ctx
  have wellNamed : ctx.WellNamed := wellNamed_reached ops
  refine ⟨wellNamed.once, wellNamed.apart, fun name f removed => ?_, fun f fault failed => ?_,
    fun source fault failed => ?_, fun f fresh => ?_⟩
  · unfold removeFunction at removed ⊢
    split at removed
    next done => exact wellNamed.lookupFunction_remove done
    next => cases removed
  · rcases calcDefine_eq f ctx with ⟨ctx', run⟩ | ⟨fault, run⟩
    · rw [run] at failed
      cases failed
    · rw [run]
  · exact defineFunction_error failed
  · obtain ⟨ctx', done⟩ := ctx.define_freshName (f := f) (Except.ok.inj fresh).symm
    show (Calc.define f ctx.freshName.2).1 = .ok ()
    rw [Calc.define, done]

end Reckon
