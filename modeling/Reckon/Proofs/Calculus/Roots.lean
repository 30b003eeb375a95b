import Reckon.Proofs.Calculus.Sampling
import Reckon.Proofs.Decimal.Finite

/-!
# Roots are accepted, distinct and in order

A search for roots that has a result found its points one after the other, each accepted by the
iteration with the points before it divided out (`Roots.Found`), whatever the samples were, those
that failed included. The result are the rounded points in increasing order, no two equal, and not
more than the degree (`Roots.accepted_of_find`).

How small a value is, is told from its magnitude after this was rounded to the ambient digits. So
the tolerance is kept if it has not more digits than that (`unsigned_less_of_abs_less`), and only
then (`Roots.accepts_above_tolerance`).
-/

namespace Reckon

open Calc Context

/-! ## Rules for results -/

namespace Calc

variable {α : Type} {I : Context → Prop} {R : Context → Context → Prop} {P : α → Prop}

/-- What is known of a result is known of it if faults are caught. -/
theorem ensures_attempt {act : Calc α} (ensures : Ensures I R act P) (caught : Fault → Bool) :
    Ensures I R (attempt caught act) fun found => ∀ a, found = some a → P a := by
  intro ctx known
  obtain ⟨related, result⟩ := ensures ctx known
  unfold attempt
  rcases run : act ctx with ⟨outcome, ctx'⟩
  rw [run] at related result
  cases outcome with
  | ok b =>
    refine ⟨related, fun found done a shape => ?_⟩
    subst shape
    cases done
    exact result b rfl
  | error fault =>
    refine ⟨related, fun found done a shape => ?_⟩
    subst shape
    dsimp only at done
    split at done <;> cases done

/-- A result is one from a context with the property. -/
theorem Keeps.ensures_run {act : Calc α} (keeps : Keeps R act) :
    Ensures I R act (∃ c, I c ∧ (act c).1 = .ok ·) :=
  fun ctx known => ⟨keeps.rel ctx, fun _ done => ⟨ctx, known, done⟩⟩

/-- The two ways to a result come together again, each under its condition. -/
theorem ensures_choice {β : Type} {Q : β → Prop} [Frame R] [Stable I R] {c : Prop} [Decidable c]
    {act act' : Calc α} {next : α → Calc β} (first : c → Ensures I R act P)
    (second : ¬ c → Ensures I R act' P) (rest : ∀ a, P a → Ensures I R (next a) Q) :
    Ensures I R (if c then act >>= next else act' >>= next) Q := by
  split
  next holds => exact (first holds).bind rest
  next fails => exact (second fails).bind rest

end Calc

instance (scope : Context) : Stable scope.Advances Advances :=
  ⟨fun advances advanced => Frame.trans advanced advances⟩

namespace Roots

/-! ## Accepted points -/

/-- The function has the value `y` at `x`, as it is sampled in the scope of the search. -/
def Samples (scope : Context) (f : Function) (x y : Decimal) : Prop :=
  ∃ c, scope.Advances c ∧ (valueAt f x c).1 = .ok y

/-- The function has the value `y` at `x`, and this slope with the points `known` divided out. -/
structure Slopes (s : Search) (scope : Context) (known : List Decimal) (x y slope : Decimal) :
    Prop where
  value : Samples scope s.function x y
  deflated : ∃ plain c, Samples scope s.derivative x plain ∧ scope.Advances c ∧
    deflatedSlope (nativePrecision c.params.precision) known x y plain = .ok slope

/-- How a point comes to be accepted with the points `known` divided out. Which values are small is
left open. -/
inductive Accepted (s : Search) (scope : Context) (small : Decimal → Prop) (known : List Decimal) :
    Decimal → Prop
  | zero {x y : Decimal} (value : Samples scope s.function x y) (zero : y.isZero = true) :
      Accepted s scope small known x
  | flat {x y slope : Decimal} (slopes : Slopes s scope known x y slope) (near : small y)
      (zero : slope.isZero = true) : Accepted s scope small known x
  | step {x y slope step next : Decimal} {c : Context} {q : ℚ}
      (slopes : Slopes s scope known x y slope) (near : small y) (advances : scope.Advances c)
      (divided : (nativePrecision c.params.precision).div y slope = .ok step)
      (moved : (nativePrecision c.params.precision).sub x step = .ok next)
      (value : step.toRat? = some q) (short : |q| < 10 ^ (-(scope.params.rootPlaces + 1))) :
      Accepted s scope small known next

/-- Each point is accepted with the points before it divided out. -/
inductive Found (s : Search) (scope : Context) (small : Decimal → Prop) : List Decimal → Prop
  | nil : Found s scope small []
  | concat {known : List Decimal} {x : Decimal} (found : Found s scope small known)
      (accepted : Accepted s scope small known x) : Found s scope small (known ++ [x])

variable {s : Search} {scope : Context} {known : List Decimal} {x y : Decimal}

theorem Accepted.mono {small small' : Decimal → Prop} (weaker : ∀ y, small y → small' y)
    (accepted : Accepted s scope small known x) : Accepted s scope small' known x := by
  cases accepted with
  | zero value zero => exact .zero value zero
  | flat slopes near zero => exact .flat slopes (weaker _ near) zero
  | step slopes near advances divided moved value short =>
    exact .step slopes (weaker _ near) advances divided moved value short

theorem Found.mono {small small' : Decimal → Prop} (weaker : ∀ y, small y → small' y)
    (found : Found s scope small known) : Found s scope small' known := by
  induction found with
  | nil => exact .nil
  | concat _ accepted ih => exact .concat ih (accepted.mono weaker)

/-- The magnitude is below the tolerance after it was rounded to the ambient digits. -/
def Small (tolerance y : Decimal) : Prop :=
  ∃ m, ambient.abs y = .ok m ∧ m.less tolerance = .ok true

/-- Numbers with distinct values. -/
def Distinct (roots : List Decimal) : Prop :=
  ∃ values : List ℚ, roots.map Decimal.toRat? = values.map some ∧ values.Nodup

/-- Numbers with increasing values. -/
def Increasing (roots : List Decimal) : Prop :=
  ∃ values : List ℚ, roots.map Decimal.toRat? = values.map some ∧ values.Pairwise (· < ·)

/-! ## The iteration -/

theorem ensures_valueAt (f : Function) (x : Decimal) :
    Ensures scope.Advances Advances (valueAt f x) (Samples scope f x) :=
  (keeps_valueAt f x).ensures_run

theorem params_eq {c : Context} (advances : scope.Advances c) :
    c.params.newtonTolerance = scope.params.newtonTolerance ∧
      c.params.rootPlaces = scope.params.rootPlaces := by
  obtain ⟨p, -, params⟩ := advances.params
  rw [params]
  exact ⟨rfl, rfl⟩

/-- What has been sampled of a point that is not a zero, or that it is one. -/
def Sampled (s : Search) (scope : Context) (known : List Decimal) (x : Decimal) :
    Decimal × Option Decimal → Prop
  | (y, none) => Samples scope s.function x y ∧ y.isZero = true
  | (y, some slope) => Slopes s scope known x y slope

theorem ensures_sampled (s : Search) (known : List Decimal) (x : Decimal) :
    Ensures scope.Advances Advances (do
      let y ← valueAt s.function x
      if y.isZero then return (y, none)
      let slope ← valueAt s.derivative x
      let p := nativePrecision (← Calc.look (·.params.precision))
      return (y, some (← Calc.decimal (deflatedSlope p known x y slope))))
      (Sampled s scope known x) := by
  refine (ensures_valueAt s.function x).bind fun y value => ?_
  split
  next zero => exact ensures_pure ⟨value, zero⟩
  next =>
    refine (ensures_valueAt s.derivative x).bind fun plain sampled => ?_
    refine (ensures_look (P := fun p => ∃ c, scope.Advances c ∧ c.params.precision = p)
      fun c advances => ⟨c, advances, rfl⟩).bind fun p ⟨c, advances, same⟩ => ?_
    refine (ensures_decimal (P := fun slope => deflatedSlope (nativePrecision p) known x y plain =
      .ok slope) fun slope done => done).bind fun slope deflated => ?_
    subst same
    exact ensures_pure ⟨value, plain, c, sampled, advances, deflated⟩

/-- A comparison tells what it has compared. -/
theorem ensures_smaller {I : Context → Prop} {R : Context → Context → Prop} [Frame R]
    (x bound : Decimal) : Ensures I R (smaller x bound) fun below =>
      ∃ m, ambient.abs x = .ok m ∧ m.less bound = .ok below :=
  ensures_decimal fun _ done => exists_of_ok_bind done

/-- A step that is shorter than a power of ten after rounding is so before. -/
theorem exists_short {step shortStep : Decimal} {places : ℤ}
    (power : ambient.powerOfTen (-(places + 1)) = .ok shortStep)
    (below : Small shortStep step) : ∃ q, step.toRat? = some q ∧ |q| < 10 ^ (-(places + 1)) := by
  obtain ⟨m, magnitude, less⟩ := below
  exact Decimal.exists_abs_lt_of_less_power (by decide) power magnitude less

theorem ensures_newton {shortStep : Decimal}
    (power : ambient.powerOfTen (-(scope.params.rootPlaces + 1)) = .ok shortStep) (fuel : Nat)
    (finite : x.IsFinite) :
    Ensures scope.Advances Advances (newton s known shortStep fuel x) fun found =>
      ∀ root, found = some root →
        root.IsFinite ∧ Accepted s scope (Small scope.params.newtonTolerance) known root := by
  induction fuel generalizing x with
  | zero => exact ensures_pure fun root none => nomatch none
  | succ fuel ih =>
    unfold newton
    refine (ensures_attempt (ensures_sampled s known x) endsIteration).bind fun found sampled => ?_
    split
    next => exact ensures_pure fun root none => nomatch none
    next y =>
      obtain ⟨value, zero⟩ := sampled _ rfl
      refine ensures_pure fun root same => ?_
      cases same
      exact ⟨finite, .zero value zero⟩
    next y slope =>
    have slopes : Slopes s scope known x y slope := sampled _ rfl
    refine (ensures_look (P := fun params => ∃ c, scope.Advances c ∧ c.params = params)
      fun c advances => ⟨c, advances, rfl⟩).bind fun params ⟨c, advances, same⟩ => ?_
    subst same
    obtain ⟨tolerance, -⟩ := params_eq advances
    dsimp only
    rw [tolerance]
    split
    next zero =>
      refine (ensures_smaller y _).bind fun near small => ?_
      split
      next holds =>
        refine ensures_pure fun root same => ?_
        cases same
        subst holds
        exact ⟨finite, .flat slopes small zero⟩
      next => exact ensures_pure fun root none => nomatch none
    next =>
    refine (ensures_decimal (P := fun step => (nativePrecision c.params.precision).div y slope =
      .ok step) fun step done => done).bind fun step divided => ?_
    refine (ensures_decimal (P := fun next => (nativePrecision c.params.precision).sub x step =
      .ok next) fun next done => done).bind fun next moved => ?_
    refine (ensures_smaller y _).bind fun near small => ?_
    refine ensures_choice (P := fun settled => settled = true →
      Small scope.params.newtonTolerance y ∧ Small shortStep step) (fun holds => ?_)
      (fun _ => ensures_pure fun none => nomatch none) fun settled short => ?_
    · subst holds
      refine (ensures_smaller step shortStep).mono (fun _ known => known)
        (fun _ _ related => related) fun settled short holds => ?_
      subst holds
      exact ⟨small, short⟩
    split
    next holds =>
      obtain ⟨near, short⟩ := short holds
      obtain ⟨q, value, bound⟩ := exists_short power short
      refine ensures_pure fun root same => ?_
      cases same
      exact ⟨Precision.finite_of_sub finite ⟨q, value⟩ moved,
        .step slopes near advances divided moved value bound⟩
    next =>
    refine (ensures_decimal (P := fun beyond => ∃ m, ambient.abs next = .ok m ∧
      divergenceLimit.less m = .ok beyond) fun beyond done => exists_of_ok_bind done).bind
      fun beyond ⟨m, magnitude, less⟩ => ?_
    cases beyond with
    | true => exact ensures_pure fun root none => nomatch none
    | false => exact ih (Decimal.finite_of_not_less_abs ⟨_, rfl⟩ magnitude less)

/-! ## The search -/

theorem exists_of_mapM {ε α β : Type} {f : α → Except ε β} {xs : List α} {ys : List β}
    (done : xs.mapM f = .ok ys) : ∀ y ∈ ys, ∃ x ∈ xs, f x = .ok y := by
  induction xs generalizing ys with
  | nil =>
    cases done
    exact fun y member => absurd member List.not_mem_nil
  | cons x xs ih =>
    rw [List.mapM_cons] at done
    obtain ⟨y, first, done⟩ := exists_of_ok_bind done
    obtain ⟨rest, others, done⟩ := exists_of_ok_bind done
    cases done
    intro y' member
    rcases List.mem_cons.1 member with rfl | member
    · exact ⟨x, .head xs, first⟩
    · obtain ⟨x', inside, same⟩ := ih others y' member
      exact ⟨x', .tail x inside, same⟩

theorem finite_of_roundRoot {places : ℤ} {rounded : Decimal} (finite : x.IsFinite)
    (done : roundRoot places x = .ok rounded) : rounded.IsFinite := by
  obtain ⟨quantized, first, second⟩ := exists_of_ok_bind done
  exact Decimal.finite_of_ofText_plain (Precision.finite_of_quantize finite first) second

/-- A new root is accepted, and no root that has been seen is equal to it after rounding. -/
theorem ensures_nextRoot {seen : List Decimal} (tried : List Decimal) {starts : List Decimal}
    (finite : ∀ start ∈ starts, start.IsFinite) :
    Ensures scope.Advances Advances (nextRoot s known seen tried starts) fun found =>
      ∀ root, found = some root →
        root.IsFinite ∧ Accepted s scope (Small scope.params.newtonTolerance) known root ∧
          ∃ rounded, roundRoot scope.params.rootPlaces root = .ok rounded ∧
            ∀ r ∈ seen, r.same rounded = false := by
  induction starts generalizing tried with
  | nil => exact ensures_pure fun root none => nomatch none
  | cons start starts ih =>
    obtain ⟨first, others⟩ := List.forall_mem_cons.1 finite
    unfold nextRoot
    split
    · exact ih tried others
    refine (ensures_look (P := fun params => params.rootPlaces = scope.params.rootPlaces)
      fun c advances => (params_eq advances).2).bind fun params same => ?_
    rw [same]
    refine (ensures_decimal (P := fun shortStep =>
      ambient.powerOfTen (-(scope.params.rootPlaces + 1)) = .ok shortStep)
      fun shortStep done => done).bind fun shortStep power => ?_
    refine (ensures_newton power _ first).bind fun found accepted => ?_
    cases found with
    | none => exact ih _ others
    | some root =>
      obtain ⟨finite, accepted⟩ := accepted root rfl
      refine (ensures_decimal (P := fun rounded =>
        roundRoot scope.params.rootPlaces root = .ok rounded) fun rounded done => done).bind
        fun rounded done => ?_
      split
      next => exact ih _ others
      next new =>
        refine ensures_pure fun root' same => ?_
        cases same
        refine ⟨finite, accepted, rounded, done, fun r member => ?_⟩
        exact Bool.eq_false_iff.2 fun equal => new (List.any_eq_true.2 ⟨r, member, equal⟩)

/-- What is known of the points and of the rounded roots while more are searched. -/
structure Gathered (s : Search) (scope : Context) (points roots : List Decimal) : Prop where
  found : Found s scope (Small scope.params.newtonTolerance) points
  rounded : points.mapM (roundRoot scope.params.rootPlaces) = .ok roots
  distinct : Distinct roots

theorem gathered_nil (s : Search) (scope : Context) : Gathered s scope [] [] :=
  ⟨.nil, rfl, [], rfl, .nil⟩

theorem Distinct.isFinite {roots : List Decimal} (distinct : Distinct roots) :
    ∀ r ∈ roots, r.IsFinite := by
  obtain ⟨values, shape, -⟩ := distinct
  intro r member
  have inside := List.mem_map_of_mem (f := Decimal.toRat?) member
  rw [shape] at inside
  obtain ⟨q, -, value⟩ := List.mem_map.1 inside
  exact ⟨q, value.symm⟩

theorem Distinct.concat {roots : List Decimal} {r : Decimal} (distinct : Distinct roots)
    (finite : r.IsFinite) (new : ∀ r' ∈ roots, r'.same r = false) : Distinct (roots ++ [r]) := by
  obtain ⟨values, shape, nodup⟩ := distinct
  obtain ⟨q, value⟩ := finite
  refine ⟨values ++ [q], by rw [List.map_append, shape, List.map_append]; simp [value], ?_⟩
  refine List.nodup_append.2 ⟨nodup, List.nodup_singleton q, fun q' inside q'' last => ?_⟩
  rw [List.mem_singleton.1 last]
  rintro rfl
  have member := List.mem_map_of_mem (f := some) inside
  rw [← shape] at member
  obtain ⟨r', present, same⟩ := List.mem_map.1 member
  have equal := (Decimal.same_iff same value).2 rfl
  rw [new r' present] at equal
  cases equal

theorem Gathered.concat {points roots : List Decimal} {root rounded : Decimal}
    (gathered : Gathered s scope points roots) (finite : root.IsFinite)
    (accepted : Accepted s scope (Small scope.params.newtonTolerance) points root)
    (done : roundRoot scope.params.rootPlaces root = .ok rounded)
    (new : ∀ r ∈ roots, r.same rounded = false) :
    Gathered s scope (points ++ [root]) (roots ++ [rounded]) where
  found := .concat gathered.found accepted
  rounded := by
    rw [List.mapM_append, gathered.rounded, List.mapM_cons, List.mapM_nil, done]
    rfl
  distinct := gathered.distinct.concat (finite_of_roundRoot finite done) new

/-- A search adds at most as many roots as it is allowed to. -/
theorem ensures_gather {starts : List Decimal} (finite : ∀ start ∈ starts, start.IsFinite)
    (fuel : Nat) {known roots : List Decimal} (gathered : Gathered s scope known roots) :
    Ensures scope.Advances Advances (gather s starts fuel known roots) fun roots' =>
      roots'.length ≤ roots.length + fuel ∧ ∃ points, Gathered s scope points roots' := by
  induction fuel generalizing known roots with
  | zero => exact ensures_pure ⟨Nat.le_refl _, known, gathered⟩
  | succ fuel ih =>
    unfold gather
    refine (ensures_look (P := (· = scope.params.rootPlaces))
      fun c advances => (params_eq advances).2).bind fun places same => ?_
    subst same
    refine (ensures_decimal (P := fun opposites => roots.mapM ambient.neg = .ok opposites)
      fun opposites done => done).bind fun opposites negated => ?_
    refine (ensures_decimal (P := (· = roots)) fun seen done => ?_).bind fun seen same => ?_
    · exact Except.ok.inj (done.symm.trans gathered.rounded)
    subst same
    have finite' : ∀ start ∈ starts ++ opposites, start.IsFinite := by
      intro start member
      rcases List.mem_append.1 member with inside | opposite
      · exact finite start inside
      · obtain ⟨r, present, done⟩ := exists_of_mapM negated start opposite
        exact Precision.finite_of_neg (gathered.distinct.isFinite r present) done
    refine (ensures_nextRoot [] finite').bind fun found new => ?_
    cases found with
    | none => exact ensures_pure ⟨Nat.le_add_right _ _, known, gathered⟩
    | some root =>
      obtain ⟨finite, accepted, rounded, done, apart⟩ := new root rfl
      refine (ensures_decimal (P := (· = rounded)) fun rounded' again => ?_).bind
        fun rounded' same => ?_
      · exact Except.ok.inj (again.symm.trans done)
      subst same
      refine (ih (gathered.concat finite accepted done apart)).mono (fun _ known => known)
        (fun _ _ related => related) fun roots' found => ⟨?_, found.2⟩
      have few := found.1
      rw [List.length_append, List.length_singleton] at few
      omega

/-! ## Sorting -/

theorem notAbove_eq {a b : Decimal} {p q : ℚ} (left : a.toRat? = some p)
    (right : b.toRat? = some q) : notAbove a b = decide (p ≤ q) := by
  rw [notAbove, Decimal.order?_eq left right, Bool.eq_iff_iff]
  simp [compare_gt_iff_gt]

/-- Numbers are sorted by their values. -/
theorem increasing_mergeSort {roots : List Decimal} (distinct : Distinct roots) :
    Increasing (roots.mergeSort notAbove) := by
  obtain ⟨values, shape, nodup⟩ := distinct
  let le : Option ℚ → Option ℚ → Bool := fun p q => decide (p.getD 0 ≤ q.getD 0)
  have sorted : (roots.mergeSort notAbove).map Decimal.toRat? =
      (values.mergeSort).map some := by
    rw [List.map_mergeSort (s := le), shape, List.map_mergeSort (s := le)]
    · exact fun p _ q _ => rfl
    intro a inside b inside'
    have member := List.mem_map_of_mem (f := Decimal.toRat?) inside
    have member' := List.mem_map_of_mem (f := Decimal.toRat?) inside'
    rw [shape] at member member'
    obtain ⟨p, -, left⟩ := List.mem_map.1 member
    obtain ⟨q, -, right⟩ := List.mem_map.1 member'
    rw [notAbove_eq left.symm right.symm, ← left, ← right]
    rfl
  refine ⟨values.mergeSort, sorted, ?_⟩
  have ordered : (values.mergeSort fun p q => decide (p ≤ q)).Pairwise
      fun p q => decide (p ≤ q) = true :=
    List.pairwise_mergeSort (fun _ _ _ first second =>
      decide_eq_true ((of_decide_eq_true first).trans (of_decide_eq_true second)))
      (fun p q => by simpa using le_total p q) values
  have apart := (List.mergeSort_perm values (fun p q => decide (p ≤ q))).nodup_iff.2 nodup
  exact (ordered.and apart).imp fun ⟨below, different⟩ =>
    lt_of_le_of_ne (of_decide_eq_true below) different

/-! ## The whole search -/

/-- What is searched: the tree with functions inlined, constants replaced and then simplified, its
degree, and the helper functions for it and for its derivative in a scope of their own. -/
inductive Prepared (e : Expr) (name : String) (ctx : Context) (s : Search) :
    (degree : ℤ) → Context → Prop
  | intro {inlined body derived slope : Expr} {degree : ℤ} {c₁ c₂ c₃ c₄ c₅ scope : Context}
      (inlines : e.inline ctx = (.ok inlined, c₁))
      (simplifies : (c₁.replaceConstants inlined).simplify c₁ = (.ok body, c₂))
      (exponent : body.degree = .ok degree)
      (derives : body.derivative name c₂ = (.ok derived, c₃))
      (simplifies' : derived.simplify c₃ = (.ok slope, c₄))
      (function : synthesize [name] body c₄.push = (.ok s.function, c₅))
      (derivative : synthesize [name] slope c₅ = (.ok s.derivative, scope)) :
      Prepared e name ctx s degree scope

theorem ensures_bracketFrom (f : Function) (fuel : Nat) {a : Decimal} (finite : a.IsFinite) :
    Ensures scope.Advances Advances (bracketFrom f fuel a) fun found =>
      ∀ low high, found = some (low, high) → low.IsFinite ∧ high.IsFinite := by
  induction fuel generalizing a with
  | zero => exact ensures_pure fun _ _ none => nomatch none
  | succ fuel ih =>
    unfold bracketFrom
    refine (keeps_attempt ?_ skipsBracket).ensures.bind fun ends _ => ?_
    · exact (keeps_decimal _).bind fun low _ => (keeps_valueAt f low).bind fun _ _ =>
        (keeps_valueAt f a).bind fun _ _ => ensures_pure trivial
    -- what follows, whether the two ends have different signs or not
    have rest : ∀ found : Bool, Ensures scope.Advances Advances (do
        if found then return some (← Calc.decimal (ambient.neg a), a)
        else bracketFrom f fuel (← Calc.decimal (ambient.mul a 2))) fun found =>
          ∀ low high, found = some (low, high) → low.IsFinite ∧ high.IsFinite := by
      intro found
      split
      · refine (ensures_decimal (P := Decimal.IsFinite) fun low done =>
          Precision.finite_of_neg finite done).bind fun low lowFinite => ensures_pure ?_
        intro low' high same
        cases same
        exact ⟨lowFinite, finite⟩
      · exact (ensures_decimal (P := Decimal.IsFinite) fun next done =>
          Precision.finite_of_mul finite ⟨_, rfl⟩ done).bind fun next nextFinite => ih nextFinite
    split
    · exact (keeps_pure _).ensures.bind fun found _ => rest found
    split
    · exact (keeps_pure _).ensures.bind fun found _ => rest found
    · exact (keeps_decimal _).ensures.bind fun _ _ => (keeps_decimal _).ensures.bind fun _ _ =>
        (keeps_pure _).ensures.bind fun found _ => rest found

/-- A search for roots that has a result. -/
theorem exists_of_find {e : Expr} {name : String} {ctx : Context} {roots : List Decimal}
    (found : (find e name ctx).1 = .ok roots) :
    ∃ s degree scope unsorted, Prepared e name ctx s degree scope ∧ unsorted ≠ [] ∧
      roots = unsorted.mergeSort notAbove ∧ (unsorted.length : ℤ) ≤ degree ∧
        ∃ points, Gathered s scope points unsorted := by
  rcases run : find e name ctx with ⟨result, after⟩
  rw [run] at found
  subst found
  unfold find at run
  obtain ⟨inlined, c₁, inlines, run⟩ := exists_of_bind run
  obtain ⟨replaced, c₁', look, run⟩ := exists_of_bind run
  cases look
  obtain ⟨body, c₂, simplifies, run⟩ := exists_of_bind run
  dsimp only at run
  split at run
  · obtain ⟨_, _, failed, -⟩ := exists_of_bind run
    cases failed
  obtain ⟨others, c₂', look, run⟩ := exists_of_bind run
  cases look
  split at run
  · obtain ⟨_, _, failed, -⟩ := exists_of_bind run
    cases failed
  obtain ⟨degree, c₂', lifted, run⟩ := exists_of_bind run
  obtain ⟨exponent, rfl⟩ := Prod.mk.inj lifted
  obtain ⟨derived, c₃, derives, run⟩ := exists_of_bind run
  obtain ⟨slope, c₄, simplifies', run⟩ := exists_of_bind run
  obtain ⟨unsorted, c₅, searched, run⟩ := exists_of_bind run
  obtain ⟨inner, searched, -⟩ := exists_of_withScope searched
  obtain ⟨function, c₅, made, searched⟩ := exists_of_bind searched
  obtain ⟨derivative, scope, made', searched⟩ := exists_of_bind searched
  obtain ⟨doublings, c₆, look, searched⟩ := exists_of_bind searched
  cases look
  obtain ⟨bracket, c₆, bracketed, searched⟩ := exists_of_bind searched
  obtain ⟨advances, bounded⟩ := ensures_bracketFrom function scope.params.bracketDoublings
    (a := 1) ⟨_, rfl⟩ scope (Frame.refl scope)
  rw [bracketed] at advances bounded
  obtain ⟨starts, finite, searched⟩ : ∃ starts, (∀ start ∈ starts, start.IsFinite) ∧
      gather ⟨function, derivative⟩ starts degree.toNat [] [] c₆ = (.ok unsorted, inner) := by
    have fixed : ∀ start ∈ [1, Decimal.ofInt (-1), 0], start.IsFinite := by
      simp [Decimal.IsFinite, Decimal.toRat?_ofInt]
    cases bracket with
    | none => exact ⟨_, fixed, searched⟩
    | some ends =>
      obtain ⟨low, high⟩ := bounded _ rfl ends.1 ends.2 rfl
      exact ⟨_, List.forall_mem_append.2 ⟨by simp [low, high], fixed⟩, searched⟩
  obtain ⟨-, gathered⟩ := ensures_gather finite degree.toNat (gathered_nil _ scope) c₆ advances
  obtain ⟨few, points, gathered⟩ := gathered unsorted (congrArg Prod.fst searched)
  split at run
  · obtain ⟨_, _, failed, -⟩ := exists_of_bind run
    cases failed
  next some =>
  have nonempty : unsorted ≠ [] := fun none => some (List.isEmpty_iff.2 none)
  have positive := List.length_pos_iff.2 nonempty
  rw [List.length_nil, Nat.zero_add] at few
  refine ⟨⟨function, derivative⟩, degree, scope, unsorted,
    .intro inlines simplifies exponent derives simplifies' made made', nonempty, ?_, by omega,
    points, gathered⟩
  cases run
  rfl

/-- The scope of a search has the settings of the calling scope, a raised precision apart. -/
theorem Prepared.params {e : Expr} {name : String} {ctx : Context} {degree : ℤ}
    (prepared : Prepared e name ctx s degree scope) : ctx.RaisesPrecision scope := by
  obtain ⟨inlines, simplifies, -, derives, simplifies', function, derivative⟩ := prepared
  have raised : ∀ {α : Type} {act : Calc α} {c c' : Context} {a : α}, Keeps Confined act →
      act c = (.ok a, c') → c.RaisesPrecision c' := by
    intro α act c c' a keeps run
    have related := (keeps.rel c).params
    rwa [run] at related
  have simplified : ∀ e : Expr, Keeps Confined e.simplify := fun e =>
    (Expr.ensures_simplify (I := fun _ => True) (Nat.le_refl _)).keeps.widen
  have first := (raised (Expr.ensures_inline (P := fun _ => True) trivial) inlines).trans
    (raised (simplified _) simplifies)
  have second := (raised (Expr.ensures_derivative (P := fun _ => True) name trivial).widen
    derives).trans (raised (simplified _) simplifies')
  have third := (raised (keeps_synthesize _ _) function).trans
    (raised (keeps_synthesize _ _) derivative)
  exact first.trans (second.trans third)

/-- A search for roots returns what it has accepted, rounded, each number once and in increasing
order, and not more of them than the degree. A tolerance that has not more digits than magnitudes
are rounded to is kept by every value that is taken to be small. -/
theorem accepted_of_find {e : Expr} {name : String} {ctx : Context} {roots : List Decimal}
    (found : (find e name ctx).1 = .ok roots) :
    ∃ s degree scope points rounded, Prepared e name ctx s degree scope ∧
      roots ≠ [] ∧ Increasing roots ∧ (roots.length : ℤ) ≤ degree ∧
      points.mapM (roundRoot ctx.params.rootPlaces) = .ok rounded ∧ roots.Perm rounded ∧
      Found s scope (Small ctx.params.newtonTolerance) points ∧
      ((∀ t, ctx.params.newtonTolerance.toRat? = some t → Representable ambientDigits t) →
        Found s scope (fun y => y.unsigned.less ctx.params.newtonTolerance = .ok true) points) := by
  obtain ⟨s, degree, scope, unsorted, prepared, nonempty, rfl, few, points, gathered⟩ :=
    exists_of_find found
  obtain ⟨_, -, params⟩ := prepared.params
  have tolerance : scope.params.newtonTolerance = ctx.params.newtonTolerance := by rw [params]
  have places : scope.params.rootPlaces = ctx.params.rootPlaces := by rw [params]
  have sorted := List.mergeSort_perm unsorted notAbove
  refine ⟨s, degree, scope, points, unsorted, prepared, ?_, increasing_mergeSort gathered.distinct,
    ?_, ?_, sorted, ?_, fun fits => ?_⟩
  · exact fun none => nonempty (List.nil_perm.1 (none ▸ sorted))
  · rwa [sorted.length_eq]
  · rw [← places]
    exact gathered.rounded
  · rw [← tolerance]
    exact gathered.found
  · refine gathered.found.mono fun y ⟨m, magnitude, below⟩ => ?_
    rw [tolerance] at below
    exact Decimal.unsigned_less_of_abs_less (by decide) fits magnitude below

/-- A new session with a short search and this tolerance. -/
def brief (tolerance : Decimal) : Context :=
  { Context.initial with
    params := { newtonTolerance := tolerance, newtonSteps := 2, bracketDoublings := 0 } }

/-- `(x-1)*(x-1)` -/
def doubled : Expr :=
  .binary .times false (.binary .minus false (.var "x") (.number 1))
    (.binary .minus false (.var "x") (.number 1))

/-- A double root is found once. -/
theorem find_doubled :
    (find doubled "x" (brief (.finite false 1 (-6)))).1 = .ok [1] ∧
    ∃ s degree scope points rounded,
      Prepared doubled "x" (brief (.finite false 1 (-6))) s degree scope ∧
      ([1] : List Decimal) ≠ [] ∧ Increasing [1] ∧ (([1] : List Decimal).length : ℤ) ≤ degree ∧
      points.mapM (roundRoot 6) = .ok rounded ∧ [1].Perm rounded ∧
      Found s scope (Small (.finite false 1 (-6))) points ∧
      Found s scope (fun y => y.unsigned.less (.finite false 1 (-6)) = .ok true) points := by
  have found : (find doubled "x" (brief (.finite false 1 (-6)))).1 = .ok [1] := by decide +kernel
  have fits : ∀ t, (Decimal.finite false 1 (-6)).toRat? = some t →
      Representable ambientDigits t := by
    intro t value
    rw [Decimal.toRat?_tens, Option.some.injEq] at value
    rw [← value]
    exact (representable_tens (by decide) (by decide)).mono (by decide)
  obtain ⟨s, degree, scope, points, rounded, prepared, some, increasing, few, roundings, sorted,
    small, below⟩ := accepted_of_find found
  exact ⟨found, s, degree, scope, points, rounded, prepared, some, increasing, few, roundings,
    sorted, small, below fits⟩

/-! ## A tolerance with more digits -/

/-- What a search is prepared by, as a computation that ends in the scope of the helpers. -/
def helpers (e : Expr) (name : String) : Calc Search := do
  let inlined ← e.inline
  let body ← (← Calc.look (·.replaceConstants inlined)).simplify
  let slope ← (← body.derivative name).simplify
  Calc.update Context.push
  return ⟨← synthesize [name] body, ← synthesize [name] slope⟩

theorem Prepared.helpers_eq {e : Expr} {name : String} {ctx : Context} {degree : ℤ}
    (prepared : Prepared e name ctx s degree scope) : helpers e name ctx = (.ok s, scope) := by
  obtain ⟨inlines, simplifies, -, derives, simplifies', function, derivative⟩ := prepared
  rw [helpers, bind_ok inlines, bind_ok (look_apply _ _), bind_ok simplifies, bind_ok derives,
    bind_ok simplifies', bind_ok (update_apply _ _), bind_ok function, bind_ok derivative]
  rfl

/-- `0.00000100000000000000000000000000001`, with more digits than magnitudes are rounded to. -/
def longTolerance : Decimal :=
  .finite false 100000000000000000000000000001 (-35)

/-- `0.00000100000000000000000000000000002` -/
def aboveTolerance : Decimal :=
  .finite false 100000000000000000000000000002 (-35)

/-- `x^2+abs(0.00000100000000000000000000000000002)`; the call keeps the digits of its argument
when the tree is simplified. -/
def lifted : Expr :=
  .binary .plus false (.binary .power false (.var "x") (.number 2))
    (.call "abs" [.literal aboveTolerance true])

/-- With such a tolerance zero is accepted, where the helper of what is searched is above the
tolerance, at its least value, and that of the derivative is zero. -/
theorem accepts_above_tolerance :
    (find lifted "x" (brief longTolerance)).1 = .ok [0] ∧
    ∃ s degree scope, Prepared lifted "x" (brief longTolerance) s degree scope ∧
      (newton s [] (.finite false 1 (-7)) 2 0 scope).1 = .ok (some 0) ∧
      (valueAt s.function 0 scope).1 = .ok aboveTolerance ∧
      (valueAt s.derivative 0 scope).1 = .ok 0 ∧
      longTolerance.less aboveTolerance.unsigned = .ok true := by
  have found : (find lifted "x" (brief longTolerance)).1 = .ok [0] := by decide +kernel
  have accepted : ((helpers lifted "x" >>= fun s => newton s [] (.finite false 1 (-7)) 2 0)
      (brief longTolerance)).1 = .ok (some 0) := by decide +kernel
  have value : ((helpers lifted "x" >>= fun s => valueAt s.function 0)
      (brief longTolerance)).1 = .ok aboveTolerance := by decide +kernel
  have slope : ((helpers lifted "x" >>= fun s => valueAt s.derivative 0)
      (brief longTolerance)).1 = .ok 0 := by decide +kernel
  obtain ⟨s, degree, scope, -, prepared, -⟩ := exists_of_find found
  rw [bind_ok prepared.helpers_eq] at accepted value slope
  exact ⟨found, s, degree, scope, prepared, accepted, value, slope, by decide +kernel⟩

end Roots

end Reckon
