import Reckon.Proofs.Context.Asked
import Reckon.Proofs.Context.Names
import Reckon.Proofs.Form.Scan

/-!
# Generated names are new

The search for a name passes over those that functions and constants have and moves the counter
past the one it gives (`exists_freshName`). Nothing else moves the counter, so while operations run
it goes from each search to the next (`Asks.counts`); what is defined and taken away in between
makes no difference. Hence no name is generated twice in the life of a context
(`generated_names_fresh`).
-/

namespace Reckon

namespace Context

/-! ## Numerals -/

theorem mem_letters {n : Nat} {c : Char} (member : c ∈ letters n) :
    ∃ digit < 26, c = Char.ofNat (97 + digit) := by
  induction n using Nat.strongRecOn with
  | ind n ih =>
    rcases Nat.lt_or_ge n 26 with small | large
    · rw [letters_of_lt small] at member
      exact ⟨n, small, List.mem_singleton.1 member⟩
    · rw [letters_of_le large] at member
      rcases List.mem_append.1 member with front | last
      · exact ih (n / 26) (by omega) front
      · exact ⟨n % 26, Nat.mod_lt n (by decide), List.mem_singleton.1 last⟩

theorem lowercase_of_mem_letters {n : Nat} {c : Char} (member : c ∈ letters n) :
    'a' ≤ c ∧ c ≤ 'z' := by
  have digits : ∀ digit < 26, 'a' ≤ Char.ofNat (97 + digit) ∧ Char.ofNat (97 + digit) ≤ 'z' := by
    decide
  obtain ⟨digit, small, rfl⟩ := mem_letters member
  exact digits digit small

theorem isName_generatedName (n : Nat) : IsName (generatedName n) := by
  have digits : ∀ digit < 26, isNameChar (Char.ofNat (97 + digit)) = true := by decide +kernel
  unfold IsName generatedName
  rw [String.toList_ofList]
  refine ⟨List.cons_ne_nil _ _, List.forall_mem_cons.2 ⟨by decide +kernel, fun c member => ?_⟩⟩
  obtain ⟨digit, small, rfl⟩ := mem_letters member
  exact digits digit small

/-- A generated name is read as one word. -/
theorem scan_generatedName (n : Nat) :
    scan (generatedName n) = .ok [⟨.identifier, generatedName n, 0⟩] := by
  have scans : Scans 0 (generatedName n).toList [⟨.identifier, generatedName n, 0⟩] [] :=
    scans_name 0 (isName_generatedName n) (by simp [Edge.Borders])
  have whole := scans.scan
  rwa [String.ofList_toList] at whole

/-! ## The counter -/

/-- The counter is `n` at first and `m` at last, and in each context it is where generating a name
in the one before has left it. -/
def Counts : (n : Nat) → List Context → (m : Nat) → Prop
  | n, [], m => m = n
  | n, ctx :: rest, m => ctx.generated = n ∧ Counts ctx.freshName.2.generated rest m

theorem Counts.append {n k m : Nat} {asked asked' : List Context} (first : Counts n asked k)
    (second : Counts k asked' m) : Counts n (asked ++ asked') m := by
  induction asked generalizing n with
  | nil =>
    cases first
    exact second
  | cons ctx asked ih => exact ⟨first.1, ih first.2⟩

theorem Counts.le {n m : Nat} {asked : List Context} (counts : Counts n asked m) :
    ∀ ctx ∈ asked, n ≤ ctx.generated := by
  induction asked generalizing n with
  | nil => exact fun _ member => absurd member List.not_mem_nil
  | cons ctx asked ih =>
    obtain ⟨rfl, rest⟩ := counts
    obtain ⟨skipped, -, here, -⟩ := ctx.exists_freshName
    rw [here] at rest
    refine List.forall_mem_cons.2 ⟨Nat.le_refl _, fun later member => ?_⟩
    have above := ih rest later member
    dsimp only at above
    omega

/-- Names whose numbers ascend are different. -/
theorem Counts.nodup {n m : Nat} {asked : List Context} (counts : Counts n asked m) :
    (asked.map fun ctx => ctx.freshName.1).Nodup := by
  induction asked generalizing n with
  | nil => exact List.nodup_nil
  | cons ctx asked ih =>
    refine List.nodup_cons.2 ⟨fun repeated => ?_, ih counts.2⟩
    obtain ⟨later, member, (same : later.freshName.1 = ctx.freshName.1)⟩ := List.mem_map.1 repeated
    have above := counts.2.le later member
    obtain ⟨skipped, -, here, -⟩ := ctx.exists_freshName
    obtain ⟨skipped', -, there, -⟩ := later.exists_freshName
    rw [here] at same above
    rw [there] at same
    have number := generatedName_inj same
    dsimp only at above
    omega

end Context

open Calc Context

/-- While a computation runs, the counter goes from each generated name to the next. -/
theorem Calc.Asks.counts {α : Type} {act : Calc α} {ctx : Context} {asked : List Context}
    (asks : Asks act ctx asked) : Counts ctx.generated asked (act ctx).2.generated := by
  induction asks with
  | freshName ctx => exact ⟨rfl, rfl⟩
  | quiet same => exact same
  | bind done first second here there =>
    rw [done] at here
    rw [bind_ok done]
    exact here.append there
  | stop failed first here =>
    rw [failed] at here
    rw [bind_error failed]
    exact here
  | @attempt α act ctx asked caught inside here =>
    have same : (Calc.attempt caught act ctx).2 = (act ctx).2 := by
      unfold Calc.attempt
      split <;> simp [*]
    rw [same]
    exact here
  | @withScope α act ctx asked inside here =>
    refine after_withScope (T := fun ctx' => Counts ctx.generated asked ctx'.generated)
      (fun ctx' popped => ?_) fun _ => here
    obtain ⟨scope, outer, -, rfl⟩ := pop_eq_ok.1 popped
    exact here
  | withParams inside here => exact here

/-! ## The life of a context -/

/-- Whatever operations run in a context, and so in one that operations have led to, it is known
where they generate names, and these names account for all that the counter has moved. No name is
generated twice. Each is an underscore and lowercase letters, which are read as one word, and when
it is given no function and no constant has it. Only names that are taken are passed over, at most
as many as there are entries, so the search ends. -/
theorem generated_names_fresh (ops : List Operation) (ctx : Context) :
    (∃ asked, Asks (Operation.actAll ops) ctx asked) ∧
    ∀ asked, Asks (Operation.actAll ops) ctx asked →
      Counts ctx.generated asked (Operation.actAll ops ctx).2.generated ∧
      (asked.map fun before => before.freshName.1).Nodup ∧
      ∀ before ∈ asked,
        let (name, after) := before.freshName
        (∃ word ≠ [], name = String.ofList ('_' :: word) ∧ ∀ c ∈ word, 'a' ≤ c ∧ c ≤ 'z') ∧
        scan name = .ok [⟨.identifier, name, 0⟩] ∧
        after.isFunction name = false ∧ after.isConstant name = false ∧
        ∃ skipped ≤ before.entryNames.length,
          name = generatedName (before.generated + skipped) ∧
          ∀ i < skipped, (before.isFunction (generatedName (before.generated + i)) ||
            before.isConstant (generatedName (before.generated + i))) = true := by
  refine ⟨Operation.traced_actAll ops ctx, fun asked asks =>
    ⟨asks.counts, asks.counts.nodup, fun before _ => ?_⟩⟩
  obtain ⟨skipped, bound, found, earlier⟩ := before.exists_freshName
  obtain ⟨function, constant⟩ := Bool.or_eq_false_iff.1 before.freshName_not_taken
  rw [found] at function constant ⊢
  exact ⟨⟨letters (before.generated + skipped), letters_ne_nil _, rfl,
    fun c member => lowercase_of_mem_letters member⟩, scan_generatedName _, function, constant,
    skipped, bound, rfl, earlier⟩

end Reckon
