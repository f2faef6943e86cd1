/-
This file compares two computations that may fail. They concur if both yield results, and these are
related, or if both fail; why they fail is of no account. Computations that concur part by part
concur as a whole, and loops that concur turn by turn.
-/

import StackSynth.Proofs.Outcome

namespace StackSynth.Outcome

/-- Checks of all items pass exactly if each does. -/
theorem forM_eq_ok {ε α : Type} {items : List α} {check : α → Except ε Unit} :
    items.forM check = .ok () ↔ ∀ item ∈ items, check item = .ok () := by
  induction items with
  | nil => exact iff_of_true rfl fun _ never => nomatch never
  | cons item rest inductionHypothesis =>
    rw [List.forM, bind_eq_ok, List.forall_mem_cons]
    exact ⟨fun ⟨_, passed, others⟩ => ⟨passed, inductionHypothesis.mp others⟩,
      fun ⟨passed, others⟩ => ⟨_, passed, inductionHypothesis.mpr others⟩⟩

/-- Checks fail with the error of one of them. -/
theorem exists_of_forM_eq_error {ε α : Type} {items : List α} {check : α → Except ε Unit}
    {cause : ε} (refused : items.forM check = .error cause) :
    ∃ item ∈ items, check item = .error cause := by
  induction items with
  | nil => cases refused
  | cons item rest inductionHypothesis =>
    rw [List.forM] at refused
    rcases bind_eq_error.mp refused with here | ⟨_, _, later⟩
    · exact ⟨item, List.mem_cons_self, here⟩
    · obtain ⟨other, member, fails⟩ := inductionHypothesis later
      exact ⟨other, List.mem_cons_of_mem _ member, fails⟩

/-- Two computations that both yield results, and related ones, or both fail. -/
inductive Concur {ε δ α β : Type} (related : α → β → Prop) : Except ε α → Except δ β → Prop where
  | ok {first : α} {second : β} : related first second → Concur related (.ok first) (.ok second)
  | error (cause : ε) (other : δ) : Concur related (.error cause) (.error other)

namespace Concur

variable {ε δ ζ η α β γ μ : Type} {related : α → β → Prop} {first : Except ε α}
  {second : Except δ β}

theorem refl (computation : Except ε α) : Concur (· = ·) computation computation := by
  cases computation with
  | ok value => exact .ok rfl
  | error cause => exact .error cause cause

theorem symm (concur : Concur related first second) :
    Concur (fun one other => related other one) second first := by
  cases concur with
  | ok are => exact .ok are
  | error cause other => exact .error other cause

theorem exists_of_ok {value : α} (concur : Concur related (.ok value : Except ε α) second) :
    ∃ other, second = .ok other ∧ related value other := by
  cases concur with
  | ok are => exact ⟨_, rfl, are⟩

/-- Where one yields a result, so does the other. -/
theorem exists_of_eq_ok {value : α} (concur : Concur related first second)
    (done : first = .ok value) : ∃ other, second = .ok other ∧ related value other := by
  rw [done] at concur
  exact concur.exists_of_ok

/-- Results of computations that concur are related. -/
theorem related_of_eq_ok {value : α} {other : β} (concur : Concur related first second)
    (done : first = .ok value) (doneToo : second = .ok other) : related value other := by
  rw [done, doneToo] at concur
  cases concur with
  | ok are => exact are

theorem toOption_eq {second : Except δ α} (concur : Concur (· = ·) first second) :
    first.toOption = second.toOption := by
  cases concur with
  | ok same => exact congrArg some same
  | error cause other => rfl

/-- Checks that pass the same concur. -/
theorem unit {first : Except ε Unit} {second : Except δ Unit}
    (same : first = .ok () ↔ second = .ok ()) : Concur (· = ·) first second := by
  cases first with
  | ok _ =>
    rw [same.mp rfl]
    exact .ok rfl
  | error cause =>
    cases second with
    | ok _ => cases same.mpr rfl
    | error other => exact .error cause other

/-! ### One part after another -/

theorem bind {next : α → Except ε γ} {nextToo : β → Except δ μ} {after : γ → μ → Prop}
    (concur : Concur related first second)
    (behind : ∀ one other, related one other → Concur after (next one) (nextToo other)) :
    Concur after (first >>= next) (second >>= nextToo) := by
  cases concur with
  | ok are => exact behind _ _ are
  | error cause other => exact .error cause other

theorem map {image : α → γ} {imageToo : β → μ} {after : γ → μ → Prop}
    (concur : Concur related first second)
    (images : ∀ one other, related one other → after (image one) (imageToo other)) :
    Concur after (first.map image) (second.map imageToo) := by
  cases concur with
  | ok are => exact .ok (images _ _ are)
  | error cause other => exact .error cause other

theorem mapError (change : ε → ζ) (changeToo : δ → η) (concur : Concur related first second) :
    Concur related (first.mapError change) (second.mapError changeToo) := by
  cases concur with
  | ok are => exact .ok are
  | error cause other => exact .error _ _

/-- Checks that refuse the same concur with what comes behind them. -/
theorem check {refused refusedToo : Prop} [Decidable refused] [Decidable refusedToo] {cause : ε}
    {other : δ} {next : γ → Except ε α} {nextToo : μ → Except δ β} (same : refused ↔ refusedToo)
    (concur : Concur related first second) :
    Concur related (if refused then (throw cause : Except ε γ) >>= next else first)
      (if refusedToo then (throw other : Except δ μ) >>= nextToo else second) := by
  by_cases holds : refused
  · rw [if_pos holds, if_pos (same.mp holds)]
    exact .error cause other
  · rw [if_neg holds, if_neg (fun holdsToo => holds (same.mpr holdsToo))]
    exact concur

/-! ### Loops -/

/-- Loops concur whose turns keep their states related. -/
theorem foldlM {σ τ : Type} {related : σ → τ → Prop} {turn : σ → α → Except ε σ}
    {turnToo : τ → β → Except δ τ} {image : α → β} {items : List α}
    (turns : ∀ item ∈ items, ∀ state other, related state other →
      Concur related (turn state item) (turnToo other (image item))) :
    ∀ {start : σ} {startToo : τ}, related start startToo →
      Concur related (items.foldlM turn start) ((items.map image).foldlM turnToo startToo) := by
  induction items with
  | nil =>
    intro start startToo are
    exact .ok are
  | cons item rest inductionHypothesis =>
    intro start startToo are
    rw [List.foldlM_cons, List.map_cons, List.foldlM_cons]
    refine (turns item List.mem_cons_self start startToo are).bind fun state other related => ?_
    exact inductionHypothesis (fun later member => turns later (List.mem_cons_of_mem _ member))
      related

/-- Loops over the same items concur whose turns yield the same. -/
theorem foldlM_same {σ : Type} {turn : σ → α → Except ε σ} {turnToo : σ → α → Except δ σ}
    {items : List α}
    (turns : ∀ item ∈ items, ∀ state, Concur (· = ·) (turn state item) (turnToo state item))
    (start : σ) : Concur (· = ·) (items.foldlM turn start) (items.foldlM turnToo start) := by
  have alike : Concur (· = ·) (items.foldlM turn start)
      ((items.map id).foldlM turnToo start) :=
    foldlM (fun item member state other same => same ▸ turns item member state) rfl
  rwa [List.map_id] at alike

/-- Lists of results concur whose items do. -/
theorem mapM {image : α → β} {change : γ → μ} {compute : α → Except ε γ}
    {computeToo : β → Except δ μ} {items : List α}
    (concur : ∀ item ∈ items,
      Concur (fun result other => change result = other) (compute item) (computeToo (image item))) :
    Concur (fun results others => results.map change = others) (items.mapM compute)
      ((items.map image).mapM computeToo) := by
  induction items with
  | nil => exact .ok rfl
  | cons item rest inductionHypothesis =>
    rw [List.mapM_cons, List.map_cons, List.mapM_cons]
    refine (concur item List.mem_cons_self).bind ?_
    rintro result _ rfl
    refine (inductionHypothesis fun later member =>
      concur later (List.mem_cons_of_mem _ member)).bind ?_
    rintro results _ rfl
    exact .ok rfl

end Concur

end StackSynth.Outcome
