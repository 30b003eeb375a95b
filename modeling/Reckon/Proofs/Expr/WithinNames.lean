import Mathlib.Data.List.Basic
import Reckon.Context
import Reckon.Proofs.Expr.Meaning

/-!
# Trees that keep to some names

`Expr.WithinNames P F` says that a tree looks up variables with `P` only, and calls and defines
functions with `F` only. Two contexts that agree on the names with `P` have the same free names for
such a tree and put the same constants into it (`Context.freeNames_eq_of_withinNames`,
`Context.replaceConstants_eq_of_withinNames`).
-/

namespace Reckon

namespace Expr

mutual

/-- Every variable that is looked up has `P`, and every function that is called or defined has `F`.
The parameters of a definition are not looked up. -/
def WithinNames (P F : String → Prop) : Expr → Prop
  | .var name => P name
  | .unary _ e => e.WithinNames P F
  | .binary _ _ l r => l.WithinNames P F ∧ r.WithinNames P F
  | .call name args => F name ∧ AllWithinNames P F args
  | .definition name params body _ => F name ∧ body.WithinNames (fun x => x ∈ params ∨ P x) F
  | .vector es => AllWithinNames P F es
  | .matrix rows => AllWithinNames P F rows
  | .literal .. | .empty => True

/-- `WithinNames` for several trees. -/
def AllWithinNames (P F : String → Prop) : List Expr → Prop
  | [] => True
  | e :: es => e.WithinNames P F ∧ AllWithinNames P F es

end

mutual

theorem WithinNames.mono {P P' F F' : String → Prop} (looked : ∀ x, P x → P' x)
    (called : ∀ x, F x → F' x) : ∀ {e : Expr}, e.WithinNames P F → e.WithinNames P' F'
  | .literal .., _ | .empty, _ => trivial
  | .var name, known => looked name known
  | .unary _ e, within => WithinNames.mono (e := e) looked called within
  | .binary _ _ _ _, ⟨left, right⟩ => ⟨left.mono looked called, right.mono looked called⟩
  | .call name _, ⟨known, all⟩ => ⟨called name known, all.mono looked called⟩
  | .definition name _ _ _, ⟨known, within⟩ =>
    ⟨called name known, within.mono (fun x => Or.imp_right (looked x)) called⟩
  | .vector es, all => AllWithinNames.mono looked called (show AllWithinNames P F es from all)
  | .matrix rows, all => AllWithinNames.mono looked called (show AllWithinNames P F rows from all)

theorem AllWithinNames.mono {P P' F F' : String → Prop} (looked : ∀ x, P x → P' x)
    (called : ∀ x, F x → F' x) : ∀ {es : List Expr}, AllWithinNames P F es → AllWithinNames P' F' es
  | [], _ => trivial
  | _ :: _, ⟨here, others⟩ => ⟨here.mono looked called, others.mono looked called⟩

end

mutual

theorem withinNames_of_all {P F : String → Prop} (looked : ∀ x, P x) (called : ∀ x, F x) :
    ∀ e : Expr, e.WithinNames P F
  | .literal .. | .empty => trivial
  | .var name => looked name
  | .unary _ e => withinNames_of_all looked called e
  | .binary _ _ l r => ⟨withinNames_of_all looked called l, withinNames_of_all looked called r⟩
  | .call name args => ⟨called name, allWithinNames_of_all looked called args⟩
  | .definition name _ body _ =>
    ⟨called name, withinNames_of_all (fun x => Or.inr (looked x)) called body⟩
  | .vector es => allWithinNames_of_all looked called es
  | .matrix rows => allWithinNames_of_all looked called rows

theorem allWithinNames_of_all {P F : String → Prop} (looked : ∀ x, P x) (called : ∀ x, F x) :
    ∀ es : List Expr, AllWithinNames P F es
  | [] => trivial
  | e :: es => ⟨withinNames_of_all looked called e, allWithinNames_of_all looked called es⟩

end

/-! ## Names that are looked up -/

mutual

/-- A variable that occurs outside of definitions is looked up. -/
theorem WithinNames.of_occurs {P F : String → Prop} {name : String} :
    ∀ {e : Expr}, e.WithinNames P F → e.Occurs name → P name
  | .var _, known, occurs => occurs ▸ known
  | .unary _ e, within, occurs => WithinNames.of_occurs (e := e) within occurs
  | .binary _ _ _ _, ⟨left, right⟩, occurs =>
    Or.elim occurs (fun here => left.of_occurs here) fun here => right.of_occurs here
  | .call _ _, ⟨_, all⟩, occurs => all.of_occursIn occurs
  | .vector es, all, occurs =>
    AllWithinNames.of_occursIn (show AllWithinNames P F es from all) occurs
  | .matrix rows, all, occurs =>
    AllWithinNames.of_occursIn (show AllWithinNames P F rows from all) occurs

theorem AllWithinNames.of_occursIn {P F : String → Prop} {name : String} :
    ∀ {es : List Expr}, AllWithinNames P F es → OccursIn name es → P name
  | _ :: _, ⟨here, others⟩, occurs =>
    Or.elim occurs (fun inside => here.of_occurs inside) fun inside => others.of_occursIn inside

end

mutual

/-- What is collected from a tree depends on the variables that it looks up. -/
theorem collectNames_congr {P F : String → Prop} {keep keep' : String → Bool}
    (same : ∀ x, P x → keep x = keep' x) :
    ∀ {e : Expr} (seen : List String), e.WithinNames P F →
      e.collectNames keep seen = e.collectNames keep' seen
  | .literal .., _, _ | .empty, _, _ | .definition .., _, _ => by
    rw [collectNames, collectNames]
  | .var name, seen, known => by
    have here : keep name = keep' name := same name known
    rw [collectNames, collectNames, here]
  | .unary _ e, seen, within => by
    rw [collectNames, collectNames]
    exact collectNames_congr same (e := e) seen within
  | .binary _ _ l r, seen, ⟨left, right⟩ => by
    rw [collectNames, collectNames, collectNames_congr same seen left,
      collectNames_congr same _ right]
  | .call _ args, seen, ⟨_, all⟩ => by
    rw [collectNames, collectNames]
    exact collectAllNames_congr same seen all
  | .vector es, seen, all => by
    rw [collectNames, collectNames]
    exact collectAllNames_congr same seen (show AllWithinNames P F es from all)
  | .matrix rows, seen, all => by
    rw [collectNames, collectNames]
    exact collectAllNames_congr same seen (show AllWithinNames P F rows from all)

theorem collectAllNames_congr {P F : String → Prop} {keep keep' : String → Bool}
    (same : ∀ x, P x → keep x = keep' x) :
    ∀ {es : List Expr} (seen : List String), AllWithinNames P F es →
      collectAllNames keep seen es = collectAllNames keep' seen es
  | [], _, _ => by rw [collectAllNames, collectAllNames]
  | _ :: _, seen, ⟨here, others⟩ => by
    rw [collectAllNames, collectAllNames, collectNames_congr same seen here,
      collectAllNames_congr same _ others]

end

/-! ## Numbers in place of variables -/

theorem lookup_filter (bindings : Bindings) (params : List String) (name : String) :
    (bindings.filter fun entry => !params.contains entry.1).lookup name =
      if name ∈ params then none else bindings.lookup name := by
  induction bindings with
  | nil => split <;> rfl
  | cons entry bindings ih =>
    obtain ⟨n, e⟩ := entry
    by_cases hidden : n ∈ params
    · rw [List.filter_cons_of_neg (by simpa using hidden), ih]
      split
      next => rfl
      next free =>
        have other : (name == n) = false := beq_false_of_ne fun same => free (same ▸ hidden)
        rw [List.lookup_cons, other]
    · rw [List.filter_cons_of_pos (by simpa using hidden), List.lookup_cons, List.lookup_cons]
      cases same : name == n with
      | true => rw [eq_of_beq same, if_neg hidden]
      | false => exact ih

mutual

/-- What is put into a tree depends on the variables that it looks up. -/
theorem substitute_congr {P F : String → Prop} {bindings bindings' : Bindings}
    (same : ∀ x, P x → bindings.lookup x = bindings'.lookup x) :
    ∀ {e : Expr}, e.WithinNames P F → e.substitute bindings = e.substitute bindings'
  | .literal .., _ | .empty, _ => by rw [substitute, substitute]
  | .var name, known => by
    have here : bindings.lookup name = bindings'.lookup name := same name known
    rw [substitute, substitute, here]
  | .unary _ e, within => by
    rw [substitute, substitute, substitute_congr same (e := e) within]
  | .binary _ _ l r, ⟨left, right⟩ => by
    rw [substitute, substitute, substitute_congr same left, substitute_congr same right]
  | .call _ args, ⟨_, all⟩ => by rw [substitute, substitute, substituteAll_congr same all]
  | .definition _ params body _, ⟨_, within⟩ => by
    rw [substitute, substitute, substitute_congr (fun x known => ?_) within]
    rw [lookup_filter, lookup_filter]
    split
    next => rfl
    next free => exact same x (known.resolve_left free)
  | .vector es, all => by
    rw [substitute, substitute, substituteAll_congr same (show AllWithinNames P F es from all)]
  | .matrix rows, all => by
    rw [substitute, substitute, substituteAll_congr same (show AllWithinNames P F rows from all)]

theorem substituteAll_congr {P F : String → Prop} {bindings bindings' : Bindings}
    (same : ∀ x, P x → bindings.lookup x = bindings'.lookup x) :
    ∀ {es : List Expr}, AllWithinNames P F es →
      substituteAll bindings es = substituteAll bindings' es
  | [], _ => by rw [substituteAll, substituteAll]
  | _ :: _, ⟨here, others⟩ => by
    rw [substituteAll, substituteAll, substitute_congr same here, substituteAll_congr same others]

end

mutual

/-- Numbers bring in no names. -/
theorem WithinNames.substitute {P F : String → Prop} {bindings : Bindings}
    (numbers : ∀ entry ∈ bindings, ∃ n, entry.2 = .number n) :
    ∀ {e : Expr}, e.WithinNames P F → (e.substitute bindings).WithinNames P F
  | .literal .., _ | .empty, _ => trivial
  | .var name, known => by
    rw [Expr.substitute]
    cases found : bindings.lookup name with
    | none => exact known
    | some e =>
      obtain ⟨front, back, rfl, -⟩ := List.lookup_eq_some_iff.1 found
      obtain ⟨n, rfl⟩ := numbers (name, e) (by simp)
      trivial
  | .unary _ e, within => WithinNames.substitute (e := e) numbers within
  | .binary _ _ _ _, ⟨left, right⟩ => ⟨left.substitute numbers, right.substitute numbers⟩
  | .call _ _, ⟨known, all⟩ => ⟨known, all.substitute numbers⟩
  | .definition _ _ _ _, ⟨known, within⟩ =>
    ⟨known, within.substitute fun entry member => numbers entry (List.mem_filter.1 member).1⟩
  | .vector es, all => AllWithinNames.substitute numbers (show AllWithinNames P F es from all)
  | .matrix rows, all => AllWithinNames.substitute numbers (show AllWithinNames P F rows from all)

theorem AllWithinNames.substitute {P F : String → Prop} {bindings : Bindings}
    (numbers : ∀ entry ∈ bindings, ∃ n, entry.2 = .number n) :
    ∀ {es : List Expr}, AllWithinNames P F es → AllWithinNames P F (substituteAll bindings es)
  | [], _ => trivial
  | _ :: _, ⟨here, others⟩ => ⟨here.substitute numbers, others.substitute numbers⟩

end

end Expr

/-! ## Constants -/

namespace Context

open Reckon.Expr

variable {P F : String → Prop} {ctx ctx' : Context} {e : Expr}

theorem freeNames_eq_of_withinNames (globals : ctx.globals = ctx'.globals)
    (same : ∀ x, P x → ctx.lookupVariable x = ctx'.lookupVariable x) (within : e.WithinNames P F) :
    ctx.freeNames e = ctx'.freeNames e := by
  refine collectNames_congr (fun x known => ?_) [] within
  rw [isConstant, isConstant, globals, isBound, isBound, same x known]

/-- The value that a constant brings into a tree. -/
theorem lookup_constants (constants : List Constant) (isBound : String → Bool) (name : String) :
    (constants.filterMap fun c =>
        if isBound c.name then none else some (c.name, Expr.number c.value)).lookup name =
      if isBound name then none
      else (constants.find? fun c => name == c.name).map fun c => .number c.value := by
  induction constants with
  | nil => split <;> rfl
  | cons c constants ih =>
    cases same : name == c.name with
    | true =>
      rw [eq_of_beq same] at ih ⊢
      cases bound : isBound c.name with
      | true =>
        rw [List.filterMap_cons_none (by rw [bound]; rfl), ih, bound]
        rfl
      | false =>
        rw [List.filterMap_cons_some (by rw [bound]; rfl), List.lookup_cons_self,
          if_neg Bool.false_ne_true, List.find?_cons_of_pos (by exact beq_self_eq_true c.name)]
        rfl
    | false =>
      rw [List.find?_cons_of_neg (by rw [same]; exact Bool.false_ne_true), ← ih]
      cases bound : isBound c.name with
      | true => rw [List.filterMap_cons_none (by rw [bound]; rfl)]
      | false =>
        rw [List.filterMap_cons_some (by rw [bound]; rfl), List.lookup_cons, same]

theorem replaceConstants_eq_of_withinNames (globals : ctx.globals = ctx'.globals)
    (same : ∀ x, P x → ctx.lookupVariable x = ctx'.lookupVariable x) (within : e.WithinNames P F) :
    ctx.replaceConstants e = ctx'.replaceConstants e := by
  refine substitute_congr (fun x known => ?_) within
  rw [lookup_constants, lookup_constants, constants, constants, globals, isBound, isBound,
    same x known]

theorem withinNames_replaceConstants (within : e.WithinNames P F) :
    (ctx.replaceConstants e).WithinNames P F := by
  refine within.substitute fun entry member => ?_
  obtain ⟨c, -, shape⟩ := List.mem_filterMap.1 member
  split at shape
  · cases shape
  · cases shape
    exact ⟨_, rfl⟩

end Context

end Reckon
