import Mathlib.Algebra.MvPolynomial.Basic
import Reckon.Proofs.Simplify.Monomial

/-!
# Products of powers

A monomial without other factors is a number times powers of variables, that is a monomial of the
ring of polynomials. Its key and the exponents of its variables determine each other, so adding up
like monomials leaves one monomial for every choice of exponents, and the sum of what is left is the
zero polynomial only if nothing is left.

Results: `same_key_iff`, `mul_polynomial`, `collect_polynomial`, `eq_nil_of_sumOf_eq_zero`.
-/

namespace Reckon

namespace Monomial

open Finsupp (single)

variable {ctx : Context}

/-! ## Exponents -/

/-- The exponent as a natural number. -/
def degree (n : Decimal) : Nat :=
  n.toRat.num.toNat

theorem degree_eq {n : Decimal} {k : Nat} (value : n.toRat? = some (k : ℚ)) : degree n = k := by
  rw [degree, Decimal.toRat_of_toRat? value, Rat.num_natCast, Int.toNat_natCast]

/-- The exponents of all variables in a product of powers. -/
noncomputable def exponentsOf (powers : List (String × Decimal)) : String →₀ Nat :=
  (powers.map fun (name, n) => single name (degree n)).sum

noncomputable def exponents (m : Monomial) : String →₀ Nat :=
  exponentsOf m.powers

/-- The monomial as a polynomial. -/
noncomputable def polynomial (m : Monomial) : MvPolynomial String ℚ :=
  MvPolynomial.monomial m.exponents m.coefficient.toRat

/-- Variables that are not bound, each of them once, with natural numbers as exponents. -/
structure PurePowers (ctx : Context) (powers : List (String × Decimal)) : Prop where
  once : (powers.map Prod.fst).Nodup
  unbound : ∀ p ∈ powers, ctx.isBound p.1 = false
  natural : ∀ p ∈ powers, ∃ k : Nat, p.2.toRat? = some (k : ℚ)

/-- A compact number times powers of variables that are not bound. -/
structure Pure (ctx : Context) (m : Monomial) : Prop where
  coefficient : ∃ q, m.coefficient.toRat? = some q ∧ Compact q
  powers : PurePowers ctx m.powers
  others : m.others = []

theorem exponentsOf_cons (p : String × Decimal) (powers : List (String × Decimal)) :
    exponentsOf (p :: powers) = single p.1 (degree p.2) + exponentsOf powers := by
  rw [exponentsOf, List.map_cons, List.sum_cons]
  rfl

theorem PurePowers.nil : PurePowers ctx [] :=
  ⟨List.nodup_nil, by simp, by simp⟩

theorem pureCons_iff {p : String × Decimal} {powers : List (String × Decimal)} :
    PurePowers ctx (p :: powers) ↔ p.1 ∉ powers.map Prod.fst ∧ ctx.isBound p.1 = false ∧
      (∃ k : Nat, p.2.toRat? = some (k : ℚ)) ∧ PurePowers ctx powers := by
  constructor
  · rintro ⟨once, unbound, natural⟩
    obtain ⟨new, once⟩ := List.nodup_cons.1 once
    obtain ⟨unbound, others⟩ := List.forall_mem_cons.1 unbound
    obtain ⟨natural, rest⟩ := List.forall_mem_cons.1 natural
    exact ⟨new, unbound, natural, once, others, rest⟩
  · rintro ⟨new, unbound, natural, once, others, rest⟩
    exact ⟨List.nodup_cons.2 ⟨new, once⟩, List.forall_mem_cons.2 ⟨unbound, others⟩,
      List.forall_mem_cons.2 ⟨natural, rest⟩⟩

theorem exponentsOf_eq_zero {name : String} : ∀ {powers : List (String × Decimal)},
    name ∉ powers.map Prod.fst → exponentsOf powers name = 0
  | [], _ => rfl
  | p :: powers, new => by
    obtain ⟨other, new⟩ := List.ne_and_not_mem_of_not_mem_cons new
    rw [exponentsOf_cons, Finsupp.add_apply, Finsupp.single_eq_of_ne other,
      exponentsOf_eq_zero new]

/-- A variable that is there once has the exponent that stands with it. -/
theorem exponentsOf_apply : ∀ {powers : List (String × Decimal)}, (powers.map Prod.fst).Nodup →
    ∀ p ∈ powers, exponentsOf powers p.1 = degree p.2
  | first :: rest, once, p, member => by
    obtain ⟨new, once⟩ := List.nodup_cons.1 once
    rw [exponentsOf_cons, Finsupp.add_apply]
    rcases List.mem_cons.1 member with rfl | later
    · rw [Finsupp.single_eq_same, exponentsOf_eq_zero new, add_zero]
    · have other : p.1 ≠ first.1 := fun same => new (same ▸ List.mem_map_of_mem later)
      rw [Finsupp.single_eq_of_ne other, exponentsOf_apply once p later, zero_add]

/-! ## Products -/

/-- An exponent is added to that of its variable. -/
theorem addPower_exponents {name : String} {n : Decimal} {k : Nat}
    (unbound : ctx.isBound name = false) (exponent : n.toRat? = some (k : ℚ)) :
    ∀ {powers : List (String × Decimal)}, PurePowers ctx powers →
      Compact (exponentOf name powers + n.toRat) →
      ∃ powers', addPower name n powers = .ok powers' ∧ PurePowers ctx powers' ∧
        (∀ x ∈ powers'.map Prod.fst, x = name ∨ x ∈ powers.map Prod.fst) ∧
        exponentsOf powers' = exponentsOf powers + single name k
  | [], _, compact => by
    have zero : (0 : Decimal).toRat? = some ((0 : Nat) : ℚ) := Decimal.toRat?_ofNat 0
    have compact : Compact ((0 : Decimal).toRat + n.toRat) := by
      rwa [Decimal.toRat_of_toRat? zero, Nat.cast_zero]
    obtain ⟨s, added, value, -⟩ := add_exponents zero exponent compact
    refine ⟨[(name, s)], by rw [addPower, added]; rfl, ?_, ?_, ?_⟩
    · exact pureCons_iff.2 ⟨List.not_mem_nil, unbound, ⟨_, value⟩, .nil⟩
    · intro x member
      exact Or.inl (List.mem_singleton.1 member)
    · rw [exponentsOf_cons, degree_eq value, zero_add, add_comm]
  | (m, old) :: rest, pure, compact => by
    obtain ⟨new, oldUnbound, ⟨j, oldExponent⟩, others⟩ := pureCons_iff.1 pure
    rw [exponentOf] at compact
    rw [addPower]
    split at compact
    next same =>
      obtain rfl := eq_of_beq same
      obtain ⟨s, added, value, -⟩ := add_exponents oldExponent exponent compact
      refine ⟨(m, s) :: rest, by rw [if_pos same, added]; rfl, ?_, ?_, ?_⟩
      · exact pureCons_iff.2 ⟨new, unbound, ⟨_, value⟩, others⟩
      · exact fun x member => Or.inr member
      · rw [exponentsOf_cons, exponentsOf_cons, degree_eq value, degree_eq oldExponent,
          Finsupp.single_add]
        abel
    next other =>
      obtain ⟨powers', added, pure', names, value⟩ :=
        addPower_exponents unbound exponent others compact
      refine ⟨(m, old) :: powers', by rw [if_neg other, added]; rfl, ?_, ?_, ?_⟩
      · refine pureCons_iff.2 ⟨fun found => ?_, oldUnbound, ⟨j, oldExponent⟩, pure'⟩
        rcases names m found with rfl | there
        · exact other (beq_self_eq_true m)
        · exact new there
      · intro x member
        rcases List.mem_cons.1 member with rfl | later
        · exact Or.inr List.mem_cons_self
        · exact (names x later).imp_right (List.mem_cons_of_mem m)
      · rw [exponentsOf_cons, exponentsOf_cons, value, add_assoc]

/-- Powers are multiplied one after the other. -/
theorem addPowers_exponents : ∀ {others powers : List (String × Decimal)}, PurePowers ctx powers →
    PurePowers ctx others → AllCompact (powerNumbers powers others) →
    ∃ powers', others.foldlM (fun powers (name, n) => addPower name n powers) powers = .ok powers' ∧
      PurePowers ctx powers' ∧ exponentsOf powers' = exponentsOf powers + exponentsOf others
  | [], powers, pure, _, _ => ⟨powers, rfl, pure, by simp [exponentsOf]⟩
  | (name, n) :: rest, powers, pure, pureOthers, compact => by
    obtain ⟨-, unbound, ⟨k, exponent⟩, pureRest⟩ := pureCons_iff.1 pureOthers
    rw [powerNumbers, allCompact_insert] at compact
    obtain ⟨here, later⟩ := compact
    obtain ⟨middle, added, pureMiddle, -, middleValue⟩ :=
      addPower_exponents unbound exponent pure here
    obtain ⟨powers', done, pure', value⟩ := addPowers_exponents pureMiddle pureRest
      fun q member => later q ⟨middle, added, member⟩
    refine ⟨powers', ?_, pure', ?_⟩
    · rw [List.foldlM_cons]
      change (addPower name n powers >>= _) = _
      rw [show addPower name n powers = _ from added]
      exact done
    · rw [value, middleValue, exponentsOf_cons, degree_eq exponent, add_assoc]

/-- The product of two monomials. -/
theorem mul_polynomial {a b : Monomial} (first : a.Pure ctx) (second : b.Pure ctx)
    (compact : AllCompact (mulNumbers a b)) :
    ∃ m, a.mul b = .ok m ∧ m.Pure ctx ∧ m.polynomial = a.polynomial * b.polynomial := by
  rw [mulNumbers, allCompact_insert] at compact
  obtain ⟨x, xValue, -⟩ := first.coefficient
  obtain ⟨y, yValue, -⟩ := second.coefficient
  obtain ⟨fits, exponents⟩ := compact
  rw [Decimal.toRat_of_toRat? xValue, Decimal.toRat_of_toRat? yValue] at fits
  obtain ⟨powers, multiplied, pure, added⟩ :=
    addPowers_exponents first.powers second.powers exponents
  obtain ⟨c, product, cValue⟩ := mul_exact xValue yValue multiplied fits
  refine ⟨_, product, ⟨⟨x * y, cValue, fits⟩, pure, ?_⟩, ?_⟩
  · rw [first.others, second.others, List.append_nil]
  · rw [polynomial, polynomial, polynomial, MvPolynomial.monomial_mul,
      Decimal.toRat_of_toRat? cValue, Decimal.toRat_of_toRat? xValue,
      Decimal.toRat_of_toRat? yValue]
    exact congrArg (MvPolynomial.monomial · (x * y)) added

theorem withSign_polynomial {m : Monomial} (pure : m.Pure ctx) (sign : Sign) :
    ∃ m', m.withSign sign = .ok m' ∧ m'.Pure ctx ∧
      m'.polynomial = Expr.signed sign m.polynomial := by
  cases sign with
  | positive => exact ⟨m, rfl, pure, rfl⟩
  | negative =>
    obtain ⟨x, xValue, fits⟩ := pure.coefficient
    obtain ⟨c, negated, cValue⟩ := negate_exact xValue fits
    refine ⟨_, negated, ⟨⟨-x, cValue, fits.neg⟩, pure.powers, pure.others⟩, ?_⟩
    change MvPolynomial.monomial m.exponents c.toRat =
      -MvPolynomial.monomial m.exponents m.coefficient.toRat
    rw [Decimal.toRat_of_toRat? cValue, Decimal.toRat_of_toRat? xValue, map_neg]

/-! ## Keys -/

/-- The sorted powers of the key with their exponents as natural numbers. -/
def sortedPowers (m : Monomial) : List (String × Nat) :=
  m.key.powers.map fun (name, n) => (name, degree n)

theorem keyPowers_perm (m : Monomial) :
    m.key.powers.Perm (m.powers.filter fun (_, n) => !n.isZero) :=
  List.mergeSort_perm _ _

theorem natural_of_mem_key {m : Monomial} (pure : PurePowers ctx m.powers) :
    ∀ p ∈ m.key.powers, ∃ k : Nat, p.2.toRat? = some (k : ℚ) :=
  fun p member => pure.natural p (List.mem_of_mem_filter ((keyPowers_perm m).mem_iff.1 member))

/-- The key holds the exponents that are not zero. -/
theorem mem_sortedPowers {m : Monomial} (pure : PurePowers ctx m.powers) {name : String} {k : Nat} :
    (name, k) ∈ m.sortedPowers ↔ k ≠ 0 ∧ m.exponents name = k := by
  constructor
  · intro member
    obtain ⟨p, inKey, same⟩ := List.mem_map.1 member
    obtain ⟨rfl, rfl⟩ := Prod.mk.inj same
    obtain ⟨there, nonzero⟩ := List.mem_filter.1 ((keyPowers_perm m).mem_iff.1 inKey)
    obtain ⟨j, exponent⟩ := pure.natural p there
    refine ⟨fun zero => ?_, exponentsOf_apply pure.once p there⟩
    rw [degree_eq exponent] at zero
    simp [(Decimal.isZero_iff exponent).2 (by rw [zero, Nat.cast_zero])] at nonzero
  · rintro ⟨nonzero, rfl⟩
    have found : name ∈ m.powers.map Prod.fst := by
      by_contra missing
      exact nonzero (exponentsOf_eq_zero missing)
    obtain ⟨p, there, rfl⟩ := List.mem_map.1 found
    have value : m.exponents p.1 = degree p.2 := exponentsOf_apply pure.once p there
    refine List.mem_map.2 ⟨p, (keyPowers_perm m).mem_iff.2 (List.mem_filter.2 ⟨there, ?_⟩),
      by rw [value]⟩
    obtain ⟨j, exponent⟩ := pure.natural p there
    rw [value, degree_eq exponent] at nonzero
    cases zero : p.2.isZero with
    | false => simp [zero]
    | true => exact absurd (by exact_mod_cast (Decimal.isZero_iff exponent).1 zero) nonzero

theorem sortedPowers_nodup {m : Monomial} (pure : PurePowers ctx m.powers) :
    m.sortedPowers.Nodup := by
  have names : (m.key.powers.map Prod.fst).Nodup :=
    ((keyPowers_perm m).map Prod.fst).nodup_iff.2
      (pure.once.sublist (List.filter_sublist.map Prod.fst))
  refine List.Nodup.of_map Prod.fst ?_
  rwa [sortedPowers, List.map_map]

theorem sortedPowers_pairwise (m : Monomial) :
    m.sortedPowers.Pairwise fun p q => p.1 ≤ q.1 := by
  have sorted : m.key.powers.Pairwise fun p q => decide (p.1 ≤ q.1) = true := by
    refine List.pairwise_mergeSort ?_ ?_ _
    · intro p q r
      simp only [decide_eq_true_eq]
      exact String.le_trans
    · intro p q
      simpa only [Bool.or_eq_true, decide_eq_true_eq] using String.le_total p.1 q.1
  exact List.pairwise_map.2 (sorted.imp of_decide_eq_true)

theorem sortedPowers_eq_iff {a b : Monomial} (first : PurePowers ctx a.powers)
    (second : PurePowers ctx b.powers) :
    a.sortedPowers = b.sortedPowers ↔ a.exponents = b.exponents := by
  constructor
  · intro same
    ext name
    by_contra different
    by_cases zero : a.exponents name = 0
    · have there := (mem_sortedPowers second).2
        ⟨fun none => different (zero.trans none.symm), rfl⟩
      rw [← same] at there
      exact different ((mem_sortedPowers first).1 there).2
    · have there := (mem_sortedPowers first).2 ⟨zero, rfl⟩
      rw [same] at there
      exact different ((mem_sortedPowers second).1 there).2.symm
  · intro same
    refine List.Perm.eq_of_pairwise ?_ (sortedPowers_pairwise a) (sortedPowers_pairwise b) ?_
    · rintro ⟨x, j⟩ ⟨y, k⟩ inFirst inSecond below above
      obtain rfl : x = y := le_antisymm below above
      rw [← ((mem_sortedPowers first).1 inFirst).2, ← ((mem_sortedPowers second).1 inSecond).2,
        same]
    · refine (List.perm_ext_iff_of_nodup (sortedPowers_nodup first) (sortedPowers_nodup second)).2
        fun ⟨name, k⟩ => ?_
      rw [mem_sortedPowers first, mem_sortedPowers second, same]

/-- Powers with natural numbers as exponents agree one by one if they have the same names and
exponents. -/
theorem agree_iff : ∀ {powers powers' : List (String × Decimal)},
    (∀ p ∈ powers, ∃ k : Nat, p.2.toRat? = some (k : ℚ)) →
    (∀ p ∈ powers', ∃ k : Nat, p.2.toRat? = some (k : ℚ)) →
    ((powers.length == powers'.length) = true ∧
      (powers.zip powers').all (fun ((m, a), (n, b)) => m == n && (a == b || a.same b)) = true ↔
      powers.map (fun (name, n) => (name, degree n)) =
        powers'.map fun (name, n) => (name, degree n))
  | [], [], _, _ => by simp
  | [], _ :: _, _, _ => by simp
  | _ :: _, [], _, _ => by simp
  | (m, a) :: powers, (n, b) :: powers', natural, natural' => by
    obtain ⟨⟨j, aValue⟩, others⟩ := List.forall_mem_cons.1 natural
    obtain ⟨⟨k, bValue⟩, others'⟩ := List.forall_mem_cons.1 natural'
    have here : (a == b || a.same b) = true ↔ degree a = degree b := by
      rw [degree_eq aValue, degree_eq bValue, Bool.or_eq_true, Decimal.same_iff aValue bValue,
        Nat.cast_inj]
      refine or_iff_right_of_imp fun equal => ?_
      rw [eq_of_beq equal, bValue] at aValue
      exact_mod_cast (Option.some.inj aValue).symm
    rw [List.zip_cons_cons, List.all_cons, List.map_cons, List.map_cons, List.cons.injEq,
      ← agree_iff others others', Prod.mk.injEq]
    simp only [List.length_cons, beq_iff_eq, Nat.add_right_cancel_iff, Bool.and_eq_true, here]
    tauto

/-- Monomials are like if they have the same exponents. -/
theorem same_key_iff {a b : Monomial} (first : a.Pure ctx) (second : b.Pure ctx) :
    a.key.same b.key = true ↔ a.exponents = b.exponents := by
  have others : ∀ {m : Monomial}, m.Pure ctx → m.key.others = [] := by
    intro m pure
    rw [key, pure.others, List.map_nil, List.mergeSort_nil]
  rw [Key.same, Bool.and_eq_true, Bool.and_eq_true, others first, others second,
    and_iff_left (beq_self_eq_true _),
    agree_iff (natural_of_mem_key first.powers) (natural_of_mem_key second.powers)]
  exact sortedPowers_eq_iff first.powers second.powers

/-! ## Sums -/

/-- The sum of monomials. -/
noncomputable def sumOf (ms : List Monomial) : MvPolynomial String ℚ :=
  (ms.map polynomial).sum

theorem sumOf_cons (m : Monomial) (ms : List Monomial) :
    sumOf (m :: ms) = m.polynomial + sumOf ms := by
  rw [sumOf, List.map_cons, List.sum_cons]
  rfl

theorem sumOf_append (ms ms' : List Monomial) : sumOf (ms ++ ms') = sumOf ms + sumOf ms' := by
  rw [sumOf, List.map_append, List.sum_append]
  rfl

/-- No two of the monomials are like. -/
structure Unlike (ctx : Context) (ms : List Monomial) : Prop where
  pure : ∀ m ∈ ms, m.Pure ctx
  distinct : (ms.map exponents).Nodup

/-- A monomial is added to the like one. -/
theorem addTo_polynomial {m : Monomial} (pure : m.Pure ctx) : ∀ {terms : List Monomial},
    Unlike ctx terms →
    (∀ first, terms.find? (·.key.same m.key) = some first →
      Compact (first.coefficient.toRat + m.coefficient.toRat)) →
    ∃ terms', addTo m terms = .ok terms' ∧ Unlike ctx terms' ∧
      (∀ x ∈ terms'.map exponents, x = m.exponents ∨ x ∈ terms.map exponents) ∧
      sumOf terms' = sumOf terms + m.polynomial
  | [], _, _ => by
    refine ⟨[m], rfl, ⟨by simpa using pure, List.nodup_singleton _⟩, ?_, ?_⟩
    · exact fun x member => Or.inl (List.mem_singleton.1 member)
    · simp [sumOf]
  | first :: rest, unlike, compact => by
    obtain ⟨head, others⟩ := List.forall_mem_cons.1 unlike.pure
    obtain ⟨new, distinct⟩ := List.nodup_cons.1 unlike.distinct
    rw [addTo]
    cases same : first.key.same m.key with
    | true =>
      obtain ⟨x, xValue, -⟩ := head.coefficient
      obtain ⟨y, yValue, -⟩ := pure.coefficient
      have fits := compact first (List.find?_cons_of_pos (by exact same))
      rw [Decimal.toRat_of_toRat? xValue, Decimal.toRat_of_toRat? yValue] at fits
      obtain ⟨c, added, cValue⟩ := Precision.add_exact (p := exact) xValue yValue fits.exact
      refine ⟨{ first with coefficient := c } :: rest, by rw [if_pos rfl, added]; rfl,
        ⟨?_, List.nodup_cons.2 ⟨new, distinct⟩⟩, fun _ member => Or.inr member, ?_⟩
      · exact List.forall_mem_cons.2 ⟨⟨⟨x + y, cValue, fits⟩, head.powers, head.others⟩, others⟩
      · have like : first.exponents = m.exponents := (same_key_iff head pure).1 same
        rw [sumOf_cons, sumOf_cons, polynomial, polynomial, polynomial, ← like,
          Decimal.toRat_of_toRat? cValue, Decimal.toRat_of_toRat? xValue,
          Decimal.toRat_of_toRat? yValue, map_add]
        change MvPolynomial.monomial first.exponents x + MvPolynomial.monomial first.exponents y +
          sumOf rest = _
        abel
    | false =>
      obtain ⟨terms', added, unlike', exponents, value⟩ :=
        addTo_polynomial pure ⟨others, distinct⟩ fun found later =>
          compact found (by rw [List.find?_cons_of_neg (by simp [same]), later])
      refine ⟨first :: terms', by rw [if_neg Bool.false_ne_true, added]; rfl, ⟨?_, ?_⟩, ?_, ?_⟩
      · exact List.forall_mem_cons.2 ⟨head, unlike'.pure⟩
      · refine List.nodup_cons.2 ⟨fun found => ?_, unlike'.distinct⟩
        rcases exponents _ found with like | there
        · exact Bool.false_ne_true (same.symm.trans ((same_key_iff head pure).2 like))
        · exact new there
      · intro x member
        rcases List.mem_cons.1 member with rfl | later
        · exact Or.inr List.mem_cons_self
        · exact (exponents x later).imp_right (List.mem_cons_of_mem _)
      · rw [sumOf_cons, sumOf_cons, value, add_assoc]

theorem addAll_polynomial : ∀ {ms terms : List Monomial}, Unlike ctx terms →
    (∀ m ∈ ms, m.Pure ctx) → AllCompact (collectNumbers terms ms) →
    ∃ terms', ms.foldlM (fun terms m => addTo m terms) terms = .ok terms' ∧
      Unlike ctx terms' ∧ sumOf terms' = sumOf terms + sumOf ms
  | [], terms, unlike, _, _ => ⟨terms, rfl, unlike, by simp [sumOf]⟩
  | m :: ms, terms, unlike, pures, compact => by
    obtain ⟨head, others⟩ := List.forall_mem_cons.1 pures
    rw [collectNumbers, allCompact_union] at compact
    obtain ⟨here, later⟩ := compact
    obtain ⟨middle, added, unlikeMiddle, -, middleValue⟩ := addTo_polynomial head unlike
      fun first found => here _ ⟨first, found, rfl⟩
    obtain ⟨terms', done, unlike', value⟩ := addAll_polynomial unlikeMiddle others
      fun q member => later q ⟨middle, added, member⟩
    refine ⟨terms', ?_, unlike', ?_⟩
    · rw [List.foldlM_cons, added]
      exact done
    · rw [value, middleValue, sumOf_cons, add_assoc]

theorem Unlike.filter {ms : List Monomial} (unlike : Unlike ctx ms) (keep : Monomial → Bool) :
    Unlike ctx (ms.filter keep) :=
  ⟨fun m member => unlike.pure m (List.mem_of_mem_filter member),
    unlike.distinct.sublist (List.filter_sublist.map exponents)⟩

theorem Unlike.perm {ms ms' : List Monomial} (unlike : Unlike ctx ms) (perm : ms'.Perm ms) :
    Unlike ctx ms' :=
  ⟨fun m member => unlike.pure m (perm.mem_iff.1 member),
    (perm.map exponents).nodup_iff.2 unlike.distinct⟩

theorem sumOf_filter {ms : List Monomial} (pures : ∀ m ∈ ms, m.Pure ctx) :
    sumOf (ms.filter (!·.coefficient.isZero)) = sumOf ms := by
  induction ms with
  | nil => rfl
  | cons m ms ih =>
    obtain ⟨head, others⟩ := List.forall_mem_cons.1 pures
    cases zero : m.coefficient.isZero with
    | false =>
      rw [List.filter_cons_of_pos (by simp [zero]), sumOf_cons, sumOf_cons, ih others]
    | true =>
      obtain ⟨x, xValue, -⟩ := head.coefficient
      have none : m.polynomial = 0 := by
        rw [polynomial, Decimal.toRat_of_toRat? xValue, (Decimal.isZero_iff xValue).1 zero,
          map_zero]
      rw [List.filter_cons_of_neg (by simp [zero]), ih others, sumOf_cons, none, zero_add]

/-- Adding up like monomials keeps their sum and leaves unlike ones that are not zero. -/
theorem collect_polynomial {ms : List Monomial} (pures : ∀ m ∈ ms, m.Pure ctx)
    (compact : AllCompact (collectNumbers [] ms)) :
    ∃ terms, collect ms = .ok terms ∧ Unlike ctx terms ∧
      (∀ t ∈ terms, t.coefficient.toRat ≠ 0) ∧ sumOf terms = sumOf ms := by
  obtain ⟨terms, added, unlike, value⟩ :=
    addAll_polynomial ⟨List.forall_mem_nil _, List.nodup_nil⟩ pures compact
  set kept := terms.filter (!·.coefficient.isZero) with kept_def
  have perm : (kept.filter (!·.isConstant) ++ kept.filter (·.isConstant)).Perm kept :=
    List.perm_append_comm.trans (List.filter_append_perm (·.isConstant) kept)
  refine ⟨kept.filter (!·.isConstant) ++ kept.filter (·.isConstant), by rw [collect, added]; rfl,
    (unlike.filter _).perm perm, ?_, ?_⟩
  · intro t member zero
    obtain ⟨there, nonzero⟩ := List.mem_filter.1 (perm.mem_iff.1 member)
    obtain ⟨x, xValue, -⟩ := (unlike.pure t there).coefficient
    rw [Decimal.toRat_of_toRat? xValue] at zero
    simp [(Decimal.isZero_iff xValue).2 zero] at nonzero
  · rw [sumOf, (perm.map polynomial).sum_eq]
    change sumOf kept = _
    rw [kept_def, sumOf_filter unlike.pure, value, sumOf, List.map_nil, List.sum_nil, zero_add]

theorem coeff_sumOf {d : String →₀ Nat} : ∀ {ms : List Monomial},
    d ∉ ms.map exponents → (sumOf ms).coeff d = 0
  | [], _ => MvPolynomial.coeff_zero d
  | m :: ms, new => by
    obtain ⟨other, new⟩ := List.ne_and_not_mem_of_not_mem_cons new
    rw [sumOf_cons, MvPolynomial.coeff_add, coeff_sumOf new, polynomial,
      MvPolynomial.coeff_monomial, if_neg other.symm, zero_add]

/-- Monomials with different exponents are linearly independent. -/
theorem eq_nil_of_sumOf_eq_zero {ms : List Monomial} (unlike : Unlike ctx ms)
    (nonzero : ∀ m ∈ ms, m.coefficient.toRat ≠ 0) (zero : sumOf ms = 0) : ms = [] := by
  cases ms with
  | nil => rfl
  | cons m ms =>
    obtain ⟨new, -⟩ := List.nodup_cons.1 unlike.distinct
    have coefficient : (sumOf (m :: ms)).coeff m.exponents = m.coefficient.toRat := by
      rw [sumOf_cons, MvPolynomial.coeff_add, coeff_sumOf new, polynomial,
        MvPolynomial.coeff_monomial, if_pos rfl, add_zero]
    rw [zero, MvPolynomial.coeff_zero] at coefficient
    exact absurd coefficient.symm (nonzero m List.mem_cons_self)

end Monomial

end Reckon
