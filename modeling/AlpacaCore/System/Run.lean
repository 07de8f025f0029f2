import Mathlib.Data.List.Basic

/-!
Runs of a system given by a partial step function.

`step s a = some s'` says that action `a` is enabled in `s` and leads to `s'`.
`run` performs a fixed list of actions and can be evaluated; `Reachable` is the
set of states some list of actions leads to, where every action met a condition
on the state it was performed in. `Inevitable` is said of a state from which no
run can go on without coming to a goal. Invariants and progress are proved once
here, from what one step does.
-/

namespace AlpacaCore.System

variable {S A : Type*}

/-- Performs `actions` in order; `none` once one of them is not enabled. -/
def run (step : S → A → Option S) : S → List A → Option S
  | s, [] => some s
  | s, a :: actions => (step s a).bind fun s' => run step s' actions

/-- Some run from `start` whose every action met `guard` ends in the state. -/
inductive Reachable (step : S → A → Option S) (guard : S → A → Prop) (start : S) : S → Prop where
  | start : Reachable step guard start start
  | next {s s' : S} {a : A} : Reachable step guard start s → guard s a → step s a = some s' →
      Reachable step guard start s'

/-- The condition every action meets. -/
abbrev Free : S → A → Prop := fun _ _ => True

/-- Each of the actions, performed in order, meets the condition. -/
def Meets (step : S → A → Option S) (guard : S → A → Prop) : S → List A → Prop
  | _, [] => True
  | s, a :: actions => guard s a ∧ ∀ s' ∈ step s a, Meets step guard s' actions

/-- The largest value the measure has in a state the run passes through. -/
def peak (step : S → A → Option S) (measure : S → Nat) : S → List A → Nat
  | s, [] => measure s
  | s, a :: actions => max (measure s) (((step s a).map fun s' => peak step measure s' actions).getD 0)

instance decidableMeets (step : S → A → Option S) (guard : S → A → Prop)
    [∀ s a, Decidable (guard s a)] : ∀ s actions, Decidable (Meets step guard s actions)
  | _, [] => isTrue trivial
  | s, a :: actions =>
      have : ∀ s', Decidable (Meets step guard s' actions) := fun s' =>
        decidableMeets step guard s' actions
      inferInstanceAs (Decidable (guard s a ∧ ∀ s' ∈ step s a, Meets step guard s' actions))

section Run

variable {step : S → A → Option S}

@[simp] theorem run_nil (s : S) : run step s [] = some s := rfl

theorem run_cons (s : S) (a : A) (actions : List A) :
    run step s (a :: actions) = (step s a).bind fun s' => run step s' actions := rfl

theorem run_append (s : S) (before after : List A) :
    run step s (before ++ after) = (run step s before).bind fun s' => run step s' after := by
  induction before generalizing s with
  | nil => rfl
  | cons a before ih =>
      rw [List.cons_append, run_cons, run_cons, Option.bind_assoc]
      congr
      funext s'
      exact ih s'

theorem run_snoc (s : S) (actions : List A) (a : A) :
    run step s (actions ++ [a]) = (run step s actions).bind fun s' => step s' a := by
  rw [run_append]
  congr
  funext s'
  rw [run_cons]
  simp

/-- Two systems whose steps correspond: what one does the other does too, and to states that
correspond again. -/
theorem run_rel {T : Type*} {step' : T → A → Option T} {related : S → T → Prop}
    (corresponds : ∀ s t a, related s t → Option.Rel related (step s a) (step' t a)) {s : S} {t : T}
    (initial : related s t) (actions : List A) :
    Option.Rel related (run step s actions) (run step' t actions) := by
  induction actions generalizing s t with
  | nil => exact .some initial
  | cons a actions ih =>
      rw [run_cons, run_cons]
      have first := corresponds s t a initial
      generalize step s a = after at first
      generalize step' t a = after' at first
      cases first with
      | none => exact .none
      | some next => exact ih next

end Run

section Reachability

variable {step : S → A → Option S} {guard : S → A → Prop} {start s : S}

theorem Reachable.trans {mid : S} (first : Reachable step guard start mid)
    (second : Reachable step guard mid s) : Reachable step guard start s := by
  induction second with
  | start => exact first
  | next _ met stepped ih => exact .next ih met stepped

/-- A run has no step, or a first one. -/
theorem Reachable.head_cases (reached : Reachable step guard start s) :
    start = s ∨ ∃ a mid, guard start a ∧ step start a = some mid ∧ Reachable step guard mid s := by
  induction reached with
  | start => exact .inl rfl
  | @next last s' a _ met stepped ih =>
      rcases ih with rfl | ⟨b, mid, first, begun, rest⟩
      · exact .inr ⟨a, s', met, stepped, .start⟩
      · exact .inr ⟨b, mid, first, begun, .next rest met stepped⟩

/-- Where each step is determined, a run to a state that has no step passes through every state
that is reached. -/
theorem Reachable.along {holds : S → Prop} {last : S} (determined : ∀ s a b, step s a = step s b)
    (path : Reachable step (fun s _ => holds s) start last) (stuck : ∀ a, step last a = none)
    (ends : holds last) (reached : Reachable step Free start s) : holds s := by
  have onPath : Reachable step (fun s _ => holds s) s last := by
    induction reached with
    | start => exact path
    | @next mid s' a _ _ stepped ih =>
        rcases ih.head_cases with rfl | ⟨b, s'', -, begun, rest⟩
        · cases (stuck a).symm.trans stepped
        · cases (stepped.symm.trans (determined mid a b)).trans begun
          exact rest
  rcases onPath.head_cases with rfl | ⟨_, _, here, _⟩
  · exact ends
  · exact here

/-- A weaker condition reaches at least as much. -/
theorem Reachable.mono {weaker : S → A → Prop} (weaken : ∀ s a, guard s a → weaker s a)
    (reached : Reachable step guard start s) : Reachable step weaker start s := by
  induction reached with
  | start => exact .start
  | next _ met stepped ih => exact .next ih (weaken _ _ met) stepped

/-- A computed run whose actions meet the condition. -/
theorem reachable_of_meets (actions : List A) (met : Meets step guard start actions)
    (computed : run step start actions = some s) : Reachable step guard start s := by
  induction actions generalizing start with
  | nil =>
      cases computed
      exact .start
  | cons a actions ih =>
      rw [run_cons] at computed
      obtain ⟨mid, stepped, rest⟩ := Option.bind_eq_some_iff.mp computed
      obtain ⟨here, later⟩ := met
      exact (Reachable.next .start here stepped).trans (ih (later mid stepped) rest)

theorem meets_free (s : S) (actions : List A) : Meets step Free s actions := by
  induction actions generalizing s with
  | nil => trivial
  | cons a actions ih => exact ⟨trivial, fun s' _ => ih s'⟩

theorem reachable_of_run (actions : List A) (computed : run step start actions = some s) :
    Reachable step Free start s :=
  reachable_of_meets actions (meets_free start actions) computed

theorem Reachable.exists_run (reached : Reachable step guard start s) :
    ∃ actions, run step start actions = some s := by
  induction reached with
  | start => exact ⟨[], rfl⟩
  | @next mid s' a _ _ stepped ih =>
      obtain ⟨actions, computed⟩ := ih
      refine ⟨actions ++ [a], ?_⟩
      rw [run_snoc, computed]
      exact stepped

/-- A property of the start that every step preserves holds wherever runs lead. -/
theorem Reachable.invariant {inv : S → Prop} (initial : inv start)
    (preserved : ∀ s a s', inv s → guard s a → step s a = some s' → inv s')
    (reached : Reachable step guard start s) : inv s := by
  induction reached with
  | start => exact initial
  | next _ met stepped ih => exact preserved _ _ _ ih met stepped

/-- The same, for the states a computed run ends in. -/
theorem run_invariant {inv : S → Prop} {actions : List A} (initial : inv start)
    (preserved : ∀ s a s', inv s → step s a = some s' → inv s')
    (computed : run step start actions = some s) : inv s :=
  (reachable_of_run _ computed).invariant initial fun s a s' held _ => preserved s a s' held

/-- A size that a step changes only to at most the measure of where it leads stays below
the peak of the measure. -/
theorem le_peak {inv : S → Prop} {size measure : S → Nat} {actions : List A} (initial : inv start)
    (small : size start ≤ measure start)
    (preserved : ∀ s a s', inv s → step s a = some s' → inv s')
    (grows : ∀ s a s', inv s → step s a = some s' → size s' ≤ size s ∨ size s' ≤ measure s')
    (computed : run step start actions = some s) : size s ≤ peak step measure start actions := by
  -- the peak of what is left of the run is compared with what was reached before it
  suffices general : ∀ bound, size start ≤ max bound (measure start) →
      size s ≤ max bound (peak step measure start actions) by
    simpa using general 0 (by simpa using small)
  clear small
  induction actions generalizing start with
  | nil =>
      cases computed
      exact fun bound below => below
  | cons a actions ih =>
      intro bound below
      rw [run_cons] at computed
      obtain ⟨mid, stepped, rest⟩ := Option.bind_eq_some_iff.mp computed
      have later := ih (preserved _ _ _ initial stepped) rest (max bound (measure start)) (by
        rcases grows _ _ _ initial stepped with kept | new
        · exact Nat.le_trans kept (Nat.le_trans below (Nat.le_max_left _ _))
        · exact Nat.le_trans new (Nat.le_max_right _ _))
      simpa only [peak, stepped, Option.map_some, Option.getD_some, Nat.max_assoc] using later

/-- Where each step is matched by any number of steps of another system, so is every run. -/
theorem Reachable.simulated {T B : Type*} {step' : T → B → Option T} {start' : T} {related : S → T → Prop}
    (initial : related start start')
    (matched : ∀ s a s' t, related s t → guard s a → step s a = some s' →
      ∃ t', Reachable step' Free t t' ∧ related s' t')
    (reached : Reachable step guard start s) : ∃ t, Reachable step' Free start' t ∧ related s t := by
  induction reached with
  | start => exact ⟨start', .start, initial⟩
  | @next mid s' a _ met stepped ih =>
      obtain ⟨t, went, relates⟩ := ih
      obtain ⟨t', goes, relates'⟩ := matched mid a s' t relates met stepped
      exact ⟨t', went.trans goes, relates'⟩

/-- What the invariant adds to the condition of a step makes up for a weaker one. -/
theorem Reachable.strengthen {weaker : S → A → Prop} {inv : S → Prop} (initial : inv start)
    (preserved : ∀ s a s', inv s → guard s a → step s a = some s' → inv s')
    (implied : ∀ s a s', inv s → guard s a → step s a = some s' → weaker s a)
    (reached : Reachable step guard start s) : Reachable step weaker start s := by
  induction reached with
  | start => exact .start
  | next reached met stepped ih =>
      exact .next ih (implied _ _ _ (reached.invariant initial preserved) met stepped) stepped

/-- Where a step is good exactly if it meets the condition, all the steps of a run are good
exactly if all of them meet the condition. -/
theorem good_iff_meets {inv : S → Prop} {good : S → A → S → Prop} (initial : inv start)
    (preserved : ∀ s a s', inv s → good s a s' → step s a = some s' → inv s')
    (exact : ∀ s a s', inv s → step s a = some s' → (good s a s' ↔ guard s a))
    (enabled : ∀ s a, inv s → ¬ guard s a → ∃ s', step s a = some s') (actions : List A) :
    (∀ before a after s s', before ++ a :: after = actions → run step start before = some s →
      step s a = some s' → good s a s') ↔ Meets step guard start actions := by
  induction actions generalizing start with
  | nil => simp [Meets]
  | cons a actions ih =>
      constructor
      · intro always
        have here : ∀ s', step start a = some s' → good start a s' :=
          fun s' => always [] a actions start s' rfl rfl
        constructor
        · by_contra broken
          obtain ⟨s', stepped⟩ := enabled _ _ initial broken
          exact broken ((exact _ _ _ initial stepped).mp (here s' stepped))
        · intro s' stepped
          apply (ih (preserved _ _ _ initial (here s' stepped) stepped)).mp
          intro before b after s s'' split computed
          exact always (a :: before) b after s s'' (by rw [List.cons_append, split])
            (by rw [run_cons, stepped]; exact computed)
      · rintro ⟨met, later⟩ before b after s s' split computed stepped
        cases before with
        | nil =>
            obtain ⟨rfl, -⟩ := List.cons.inj split
            cases computed
            exact (exact _ _ _ initial stepped).mpr met
        | cons c before =>
            obtain ⟨rfl, tail⟩ := List.cons.inj split
            rw [run_cons] at computed
            obtain ⟨mid, first, rest⟩ := Option.bind_eq_some_iff.mp computed
            have good := (exact _ _ _ initial first).mpr met
            exact (ih (preserved _ _ _ initial good first)).mpr (later mid first)
              before b after s s' tail rest stepped

/-- The same, where it is the states that the property is about. -/
theorem holds_iff_meets {inv holds : S → Prop} (initial : inv start) (first : holds start)
    (preserved : ∀ s a s', inv s → holds s' → step s a = some s' → inv s')
    (exact : ∀ s a s', inv s → holds s → step s a = some s' → (holds s' ↔ guard s a))
    (enabled : ∀ s a, inv s → ¬ guard s a → ∃ s', step s a = some s') (actions : List A) :
    (∀ before after s, before ++ after = actions → run step start before = some s → holds s) ↔
      Meets step guard start actions := by
  have both := @good_iff_meets S A step guard start (fun s => inv s ∧ holds s)
    (fun _ _ s' => holds s') ⟨initial, first⟩
    (fun s a s' held good stepped => ⟨preserved s a s' held.1 good stepped, good⟩)
    (fun s a s' held stepped => exact s a s' held.1 held.2 stepped)
    (fun s a held => enabled s a held.1) actions
  rw [← both]
  constructor
  · intro always before a after s s' split computed stepped
    apply always (before ++ [a]) after s' (by simpa using split)
    rw [run_snoc, computed]
    exact stepped
  · intro always before after s split computed
    rcases List.eq_nil_or_concat before with rfl | ⟨init, a, rfl⟩
    · cases computed
      exact first
    · rw [List.concat_eq_append] at split computed
      rw [run_snoc] at computed
      obtain ⟨mid, rest, stepped⟩ := Option.bind_eq_some_iff.mp computed
      exact always init a after mid s (by simpa using split) rest stepped

end Reachability

section Progress

/-- A state with the property is come to, whatever is done; and until then something can be. -/
inductive Inevitable (step : S → A → Option S) (goal : S → Prop) : S → Prop where
  | now {s : S} : goal s → Inevitable step goal s
  | later {s : S} : (∃ a s', step s a = some s') →
      (∀ a s', step s a = some s' → Inevitable step goal s') → Inevitable step goal s

variable {step : S → A → Option S} {goal : S → Prop}

/-- It is enough that a measure gets smaller in a well-founded order. -/
theorem Inevitable.of_measure {M : Type*} {smaller : M → M → Prop} (wf : WellFounded smaller)
    {inv : M → S → Prop}
    (progress : ∀ m s, inv m s → goal s ∨ (∃ a s', step s a = some s') ∧
      ∀ a s', step s a = some s' → ∃ m', smaller m' m ∧ inv m' s') {m : M} {s : S}
    (holds : inv m s) : Inevitable step goal s := by
  induction m using wf.induction generalizing s with
  | _ m ih =>
      rcases progress m s holds with reached | ⟨enabled, nearer⟩
      · exact .now reached
      · apply Inevitable.later enabled
        intro a s' stepped
        obtain ⟨m', less, holds'⟩ := nearer a s' stepped
        exact ih m' less holds'

theorem Inevitable.mono {weaker : S → Prop} (weaken : ∀ s, goal s → weaker s) {s : S}
    (inevitable : Inevitable step goal s) : Inevitable step weaker s := by
  induction inevitable with
  | now reached => exact .now (weaken _ reached)
  | later enabled _ ih => exact .later enabled ih

/-- Where nothing can be done at the goal, it is still to come on every run towards it. -/
theorem Inevitable.reached {guard : S → A → Prop} {start s : S}
    (final : ∀ s a, goal s → step s a = none) (inevitable : Inevitable step goal start)
    (reached : Reachable step guard start s) : Inevitable step goal s := by
  induction reached with
  | start => exact inevitable
  | next _ _ stepped ih =>
      cases ih with
      | now reached =>
          rw [final _ _ reached] at stepped
          cases stepped
      | later _ next => exact next _ _ stepped

/-- An invariant that keeps from the goal. -/
theorem Inevitable.elim {inv : S → Prop}
    (preserved : ∀ s a s', inv s → step s a = some s' → inv s') (never : ∀ s, inv s → ¬ goal s)
    {s : S} (inevitable : Inevitable step goal s) (holds : inv s) : False := by
  induction inevitable with
  | now reached => exact never _ holds reached
  | later enabled _ ih =>
      obtain ⟨a, s', stepped⟩ := enabled
      exact ih a s' stepped (preserved _ _ _ holds stepped)

end Progress

end AlpacaCore.System
