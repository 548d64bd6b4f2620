import WeightedCnf.Random.Draw

namespace WeightedCnf.Draw

variable {σ α β : Type} {causes : Fault → Prop}

def Ends (causes : Fault → Prop) (results : α → Prop) (x : Draw σ α) : Prop :=
  ∀ source, match x source with
    | .ok (a, _) => results a
    | .error cause => causes cause

-- The computation gives a result from every source.
def Always (results : α → Prop) (x : Draw σ α) : Prop := Ends (fun _ => False) results x

theorem Ends.mono {more : Fault → Prop} {results weaker : α → Prop} {x : Draw σ α}
    (ends : Ends causes results x) (excuse : ∀ cause, causes cause → more cause)
    (weaken : ∀ a, results a → weaker a) : Ends more weaker x := by
  intro source
  have here := ends source
  cases given : x source with
  | ok pair => rw [given] at here; exact weaken _ here
  | error cause => rw [given] at here; exact excuse _ here

theorem Always.ends {results : α → Prop} {x : Draw σ α} (always : Always results x) :
    Ends causes results x :=
  always.mono (fun _ never => never.elim) fun _ holds => holds

theorem Always.eq_ok {results : α → Prop} {x : Draw σ α} (always : Always results x) (source : σ) :
    ∃ a rest, x source = .ok (a, rest) ∧ results a := by
  have here := always source
  cases given : x source with
  | ok pair => rw [given] at here; exact ⟨pair.1, pair.2, rfl, here⟩
  | error cause => rw [given] at here; exact here.elim

theorem Ends.of_eq_ok {results : α → Prop} {x : Draw σ α} (ends : Ends causes results x)
    {source rest : σ} {a : α} (given : x source = .ok (a, rest)) : results a := by
  have here := ends source
  rwa [given] at here

theorem Ends.of_eq_error {results : α → Prop} {x : Draw σ α} (ends : Ends causes results x)
    {source : σ} {cause : Fault} (given : x source = .error cause) : causes cause := by
  have here := ends source
  rwa [given] at here

theorem bind_eq_ok {x : Draw σ α} {next : α → Draw σ β} {source rest : σ} {b : β}
    (given : (x >>= next) source = .ok (b, rest)) :
    ∃ a between, x source = .ok (a, between) ∧ next a between = .ok (b, rest) := by
  obtain ⟨⟨a, between⟩, first, later⟩ := bind_eq_ok_iff.mp given
  exact ⟨a, between, first, later⟩

theorem bind_eq_error {x : Draw σ α} {next : α → Draw σ β} {source : σ} {cause : Fault}
    (failed : (x >>= next) source = .error cause) :
    x source = .error cause ∨ ∃ a between, x source = .ok (a, between) ∧ next a between = .error cause := by
  cases given : x source with
  | error other =>
    simp only [bind, StateT.bind, given, Except.bind, Except.error.injEq] at failed
    exact .inl (congrArg _ failed)
  | ok pair =>
    simp only [bind, StateT.bind, given, Except.bind] at failed
    exact .inr ⟨pair.1, pair.2, rfl, failed⟩

theorem bind_of_eq_ok {x : Draw σ α} {source between : σ} {a : α} (given : x source = .ok (a, between))
    (next : α → Draw σ β) : (x >>= next) source = next a between := by
  simp only [bind, StateT.bind, given, Except.bind]

theorem pure_eq (a : α) (source : σ) : (pure a : Draw σ α) source = .ok (a, source) := rfl

theorem lift_of_eq_ok {r : Except Fault α} {a : α} (given : r = .ok a) (source : σ) :
    (liftM r : Draw σ α) source = .ok (a, source) := by
  subst given
  rfl

theorem lift_eq_ok {r : Except Fault α} {a : α} {source rest : σ}
    (given : (liftM r : Draw σ α) source = .ok (a, rest)) : r = .ok a ∧ rest = source := by
  cases r with
  | error cause => cases given
  | ok b =>
    cases given
    exact ⟨rfl, rfl⟩

theorem ends_pure {results : α → Prop} {a : α} (holds : results a) :
    Ends causes results (pure a : Draw σ α) :=
  fun _ => holds

theorem ends_throw {results : α → Prop} {cause : Fault} (holds : causes cause) :
    Ends causes results (throw cause : Draw σ α) :=
  fun _ => holds

theorem ends_bind {middle : α → Prop} {results : β → Prop} {x : Draw σ α} {next : α → Draw σ β}
    (first : Ends causes middle x) (later : ∀ a, middle a → Ends causes results (next a)) :
    Ends causes results (x >>= next) := by
  intro source
  have here := first source
  simp only [bind, StateT.bind]
  cases given : x source with
  | ok pair => rw [given] at here; exact later pair.1 here pair.2
  | error cause => rw [given] at here; exact here

theorem ends_lift {results : α → Prop} {r : Except Fault α} {a : α} (given : r = .ok a)
    (holds : results a) : Ends causes results (liftM r : Draw σ α) := by
  intro source
  subst given
  exact holds

theorem ends_mapM {each : β → Prop} {draw : α → Draw σ β} {xs : List α}
    (draws : ∀ x ∈ xs, Ends causes each (draw x)) :
    Ends causes (fun ys => ys.length = xs.length ∧ ∀ y ∈ ys, each y) (xs.mapM draw) := by
  induction xs with
  | nil => exact ends_pure ⟨rfl, by simp⟩
  | cons x xs ih =>
    rw [List.mapM_cons]
    refine ends_bind (draws x (by simp)) fun y held => ?_
    refine ends_bind (ih fun z later => draws z (List.mem_cons_of_mem _ later)) fun ys rest => ?_
    refine ends_pure ⟨by simp [rest.1], ?_⟩
    exact List.forall_mem_cons.mpr ⟨held, rest.2⟩

section Sources
variable [WordSource σ]

theorem bool_eq (source : σ) : bool source =
    .ok (decide (2147483648 ≤ (WordSource.next32 source).1), (WordSource.next32 source).2) := rfl

theorem bool_always : Always (fun _ => True) (bool : Draw σ Bool) := fun _ => trivial

theorem coin_always : Always (fun _ => True) (coin : Draw σ Bool) := fun _ => trivial

theorem unit_always : Always (fun _ => True) (unit : Draw σ Float) := fun _ => trivial

theorem below_always {n : Nat} (room : 0 < n) : Always (· < n) (below n : Draw σ Nat) := by
  intro source
  have inside := spread_lt room patience source
  have nonzero : n ≠ 0 := by omega
  simp only [below, nonzero, if_false]
  exact inside

theorem upto_always {n : Nat} (room : 0 < n) :
    Always (fun k => 0 < k ∧ k ≤ n) (upto n : Draw σ Nat) :=
  ends_bind (below_always room) fun k inside => ends_pure ⟨Nat.succ_pos k, inside⟩

theorem choose_always {xs : List α} (nonempty : xs ≠ []) : Always (· ∈ xs) (choose xs : Draw σ α) := by
  refine ends_bind (below_always (List.length_pos_iff.mpr nonempty)) fun i inside => ?_
  rw [List.getElem?_eq_getElem inside]
  exact ends_pure (List.getElem_mem inside)

end Sources

end WeightedCnf.Draw
