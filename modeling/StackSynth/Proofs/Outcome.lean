/-
This file reads computations that may fail. Every stage of a synthesis stops at the first error,
so a result of the whole is a result of each part, and an error of the whole is the error of one
part. Loops over lists are read through what one turn preserves.
-/

import Mathlib.Data.List.Basic

namespace StackSynth.Outcome

variable {ε δ α β σ : Type}

/-! ### One part after another -/

/-- A result is handed on. -/
theorem ok_bind (value : α) (next : α → Except ε β) :
    ((.ok value : Except ε α) >>= next) = next value := rfl

/-- A sequence yields a result exactly if both parts do. -/
theorem bind_eq_ok {first : Except ε α} {next : α → Except ε β} {result : β} :
    first >>= next = .ok result ↔ ∃ value, first = .ok value ∧ next value = .ok result := by
  cases first with
  | ok value =>
    constructor
    · intro same
      exact ⟨value, rfl, same⟩
    · rintro ⟨_, same, rest⟩
      cases same
      exact rest
  | error cause =>
    constructor
    · intro impossible
      cases impossible
    · rintro ⟨_, impossible, _⟩
      cases impossible

/-- There is a result of a sequence exactly if there is one of each part. -/
theorem exists_bind_eq_ok {first : Except ε α} {next : α → Except ε β} :
    (∃ result, first >>= next = .ok result) ↔
      ∃ value, first = .ok value ∧ ∃ result, next value = .ok result := by
  simp only [bind_eq_ok]
  constructor
  · rintro ⟨result, value, done, rest⟩
    exact ⟨value, done, result, rest⟩
  · rintro ⟨value, done, result, rest⟩
    exact ⟨result, value, done, rest⟩

/-- Sequences are the same if their second parts are, on what the first part yields. -/
theorem bind_eq_bind {first : Except ε α} {next other : α → Except ε β}
    (same : ∀ value, first = .ok value → next value = other value) :
    first >>= next = first >>= other := by
  cases first with
  | ok value => exact same value rfl
  | error cause => rfl

/-- A sequence fails exactly if the first part does or the second part on its result. -/
theorem bind_eq_error {first : Except ε α} {next : α → Except ε β} {cause : ε} :
    first >>= next = .error cause ↔
      first = .error cause ∨ ∃ value, first = .ok value ∧ next value = .error cause := by
  cases first with
  | ok value =>
    constructor
    · intro same
      exact .inr ⟨value, rfl, same⟩
    · rintro (impossible | ⟨_, same, rest⟩)
      · cases impossible
      · cases same
        exact rest
  | error other =>
    constructor
    · intro same
      cases same
      exact .inl rfl
    · rintro (same | ⟨_, impossible, _⟩)
      · cases same
        rfl
      · cases impossible

theorem pure_eq_ok {value result : α} :
    (pure value : Except ε α) = .ok result ↔ value = result := by
  constructor
  · intro same
    cases same
    rfl
  · rintro rfl
    rfl

theorem pure_ne_error {value : α} {cause : ε} : (pure value : Except ε α) ≠ .error cause :=
  fun same => nomatch same

/-- A check that is passed leaves what comes behind it. -/
theorem check_eq_ok {refused : Prop} [Decidable refused] {cause : ε} {next : β → Except ε α}
    {rest : Except ε α} {result : α} :
    (if refused then (throw cause : Except ε β) >>= next else rest) = .ok result ↔
      ¬refused ∧ rest = .ok result := by
  by_cases holds : refused
  · rw [if_pos holds]
    constructor
    · intro impossible
      cases impossible
    · intro both
      exact absurd holds both.1
  · rw [if_neg holds]
    exact ⟨fun same => ⟨holds, same⟩, fun both => both.2⟩

/-- A check fails with its own error, or what comes behind it does. -/
theorem check_eq_error {refused : Prop} [Decidable refused] {cause other : ε}
    {next : β → Except ε α} {rest : Except ε α} :
    (if refused then (throw cause : Except ε β) >>= next else rest) = .error other ↔
      (refused ∧ cause = other) ∨ (¬refused ∧ rest = .error other) := by
  by_cases holds : refused
  · rw [if_pos holds]
    constructor
    · intro same
      cases same
      exact .inl ⟨holds, rfl⟩
    · rintro (⟨_, rfl⟩ | both)
      · rfl
      · exact absurd holds both.1
  · rw [if_neg holds]
    exact ⟨fun same => .inr ⟨holds, same⟩,
      fun either => either.elim (fun both => absurd both.1 holds) (·.2)⟩

theorem mapError_eq_ok {change : ε → δ} {first : Except ε α} {result : α} :
    first.mapError change = .ok result ↔ first = .ok result := by
  cases first with
  | ok value =>
    constructor
    · intro same
      cases same
      rfl
    · intro same
      cases same
      rfl
  | error cause =>
    constructor
    · intro impossible
      cases impossible
    · intro impossible
      cases impossible

theorem mapError_eq_error {change : ε → δ} {first : Except ε α} {cause : δ} :
    first.mapError change = .error cause ↔
      ∃ inner, first = .error inner ∧ change inner = cause := by
  cases first with
  | ok value =>
    constructor
    · intro impossible
      cases impossible
    · rintro ⟨_, impossible, _⟩
      cases impossible
  | error other =>
    constructor
    · intro same
      cases same
      exact ⟨other, rfl, rfl⟩
    · rintro ⟨_, same, rfl⟩
      cases same
      rfl

theorem exists_of_isOk {first : Except ε α} (isOk : first.isOk = true) :
    ∃ value, first = .ok value := by
  cases first with
  | ok value => exact ⟨value, rfl⟩
  | error _ => cases isOk

theorem eq_ok_of_toOption {first : Except ε α} {value : α} (there : first.toOption = some value) :
    first = .ok value := by
  cases first with
  | ok _ => exact congrArg _ (Option.some.inj there)
  | error _ => cases there

/-- What is seen of a result is seen of one that there is. -/
theorem exists_of_map_toOption {first : Except ε α} {look : α → β} {seen : β}
    (sees : first.toOption.map look = some seen) :
    ∃ value, first = .ok value ∧ look value = seen := by
  cases first with
  | ok value => exact ⟨value, rfl, Option.some.inj sees⟩
  | error _ => cases sees

/-! ### Loops -/

/-- What every turn of a loop preserves holds at its end. The turns done so far are listed, so
that the invariant may speak of them. -/
theorem foldlM_invariant {turn : σ → α → Except ε σ} {items : List α}
    (holds : List α → σ → Prop)
    (step : ∀ before item after state next, items = before ++ item :: after → holds before state →
      turn state item = .ok next → holds (before ++ [item]) next)
    {start finish : σ} (atStart : holds [] start)
    (run : items.foldlM turn start = .ok finish) : holds items finish := by
  suffices general : ∀ rest before state, items = before ++ rest → holds before state →
      rest.foldlM turn state = .ok finish → holds items finish from
    general items [] start rfl atStart run
  intro rest
  induction rest with
  | nil =>
    intro before state split held ran
    rw [List.foldlM_nil, pure_eq_ok] at ran
    rw [split, List.append_nil, ← ran]
    exact held
  | cons item rest inductionHypothesis =>
    intro before state split held ran
    rw [List.foldlM_cons] at ran
    obtain ⟨next, turned, ran⟩ := bind_eq_ok.mp ran
    refine inductionHypothesis (before ++ [item]) next (by simp [split]) ?_ ran
    exact step before item rest state next split held turned

/-- A loop of which every turn can be made, and preserves what the next turn needs, has a result. -/
theorem exists_foldlM_invariant {turn : σ → α → Except ε σ} {items : List α}
    (holds : List α → σ → Prop)
    (turns : ∀ before item after state, items = before ++ item :: after → holds before state →
      ∃ next, turn state item = .ok next ∧ holds (before ++ [item]) next)
    {start : σ} (atStart : holds [] start) :
    ∃ finish, items.foldlM turn start = .ok finish ∧ holds items finish := by
  suffices general : ∀ rest before state, items = before ++ rest → holds before state →
      ∃ finish, rest.foldlM turn state = .ok finish ∧ holds items finish from
    general items [] start rfl atStart
  intro rest
  induction rest with
  | nil =>
    intro before state split held
    rw [List.append_nil] at split
    exact ⟨state, rfl, split ▸ held⟩
  | cons item rest inductionHypothesis =>
    intro before state split held
    obtain ⟨next, turned, heldNext⟩ := turns before item rest state split held
    obtain ⟨finish, ran, heldFinish⟩ :=
      inductionHypothesis (before ++ [item]) next (by simp [split]) heldNext
    refine ⟨finish, ?_, heldFinish⟩
    rw [List.foldlM_cons]
    exact bind_eq_ok.mpr ⟨next, turned, ran⟩

/-- A loop that fails fails in one of its turns, after the turns before it. -/
theorem foldlM_eq_error {turn : σ → α → Except ε σ} {items : List α} {start : σ} {cause : ε}
    (failed : items.foldlM turn start = .error cause) :
    ∃ before item after state, items = before ++ item :: after ∧
      before.foldlM turn start = .ok state ∧ turn state item = .error cause := by
  induction items generalizing start with
  | nil => exact absurd failed pure_ne_error
  | cons item rest inductionHypothesis =>
    rw [List.foldlM_cons] at failed
    rcases bind_eq_error.mp failed with atOnce | ⟨next, turned, later⟩
    · exact ⟨[], item, rest, start, rfl, rfl, atOnce⟩
    · obtain ⟨before, other, after, state, split, ran, failedThere⟩ := inductionHypothesis later
      refine ⟨item :: before, other, after, state, by rw [split]; rfl, ?_, failedThere⟩
      rw [List.foldlM_cons]
      exact bind_eq_ok.mpr ⟨next, turned, ran⟩

/-- A loop over two lists is the loop over the second from where the first ends. -/
theorem foldlM_append_eq_ok {turn : σ → α → Except ε σ} {front back : List α}
    {start finish : σ} :
    (front ++ back).foldlM turn start = .ok finish ↔
      ∃ middle, front.foldlM turn start = .ok middle ∧ back.foldlM turn middle = .ok finish := by
  rw [List.foldlM_append]
  exact bind_eq_ok

/-- A loop runs the same where each turn that is made is made the same. -/
theorem foldlM_eq_ok_of_imp {turn other : σ → α → Except ε σ} {items : List α} {start finish : σ}
    (run : items.foldlM turn start = .ok finish)
    (same : ∀ item ∈ items, ∀ state next, turn state item = .ok next →
      other state item = .ok next) : items.foldlM other start = .ok finish := by
  induction items generalizing start with
  | nil => exact run
  | cons item rest inductionHypothesis =>
    rw [List.foldlM_cons] at run ⊢
    obtain ⟨next, turned, run⟩ := bind_eq_ok.mp run
    exact bind_eq_ok.mpr ⟨next, same item List.mem_cons_self start next turned,
      inductionHypothesis run fun later inRest => same later (List.mem_cons_of_mem _ inRest)⟩

/-- What two loops over the same items keep turn by turn holds between them at the end. -/
theorem foldlM_lockstep {τ : Type} {turn : σ → α → Except ε σ} {turnToo : τ → α → Except δ τ}
    {items : List α} (related : σ → τ → Prop)
    (step : ∀ item ∈ items, ∀ state next other otherNext, related state other →
      turn state item = .ok next → turnToo other item = .ok otherNext → related next otherNext)
    {start finish : σ} {startToo finishToo : τ} (atStart : related start startToo)
    (run : items.foldlM turn start = .ok finish)
    (runToo : items.foldlM turnToo startToo = .ok finishToo) : related finish finishToo := by
  induction items generalizing start startToo with
  | nil =>
    cases run
    cases runToo
    exact atStart
  | cons item rest inductionHypothesis =>
    obtain ⟨next, turned, run⟩ := bind_eq_ok.mp run
    obtain ⟨nextToo, turnedToo, runToo⟩ := bind_eq_ok.mp runToo
    exact inductionHypothesis
      (fun later inRest => step later (List.mem_cons_of_mem _ inRest))
      (step item List.mem_cons_self _ _ _ _ atStart turned turnedToo) run runToo

/-- A list of results holds the result of every item and nothing else. -/
theorem mem_of_mapM_eq_ok {image : α → Except ε β} {items : List α} {results : List β}
    (done : items.mapM image = .ok results) :
    (∀ item ∈ items, ∃ result ∈ results, image item = .ok result) ∧
      ∀ result ∈ results, ∃ item ∈ items, image item = .ok result := by
  induction items generalizing results with
  | nil =>
    rw [List.mapM_nil, pure_eq_ok] at done
    exact ⟨fun _ never => (nomatch never), fun _ member => by rw [← done] at member; cases member⟩
  | cons head rest inductionHypothesis =>
    simp only [List.mapM_cons, bind_eq_ok, pure_eq_ok] at done
    obtain ⟨first, atHead, later, doneRest, rfl⟩ := done
    obtain ⟨all, only⟩ := inductionHypothesis doneRest
    refine ⟨fun item member => ?_, fun result member => ?_⟩
    · rcases List.mem_cons.mp member with rfl | inRest
      · exact ⟨first, List.mem_cons_self, atHead⟩
      · obtain ⟨result, isResult, found⟩ := all item inRest
        exact ⟨result, List.mem_cons_of_mem _ isResult, found⟩
    · rcases List.mem_cons.mp member with rfl | inLater
      · exact ⟨head, List.mem_cons_self, atHead⟩
      · obtain ⟨item, isItem, found⟩ := only result inLater
        exact ⟨item, List.mem_cons_of_mem _ isItem, found⟩

/-- What holds between the images of items that follow each other holds between the results. -/
theorem pairwise_of_mapM_eq_ok {image : α → Except ε β} {items : List α} {results : List β}
    {related : β → β → Prop} (done : items.mapM image = .ok results)
    (each : items.Pairwise (fun first second => ∀ one other, image first = .ok one →
      image second = .ok other → related one other)) : results.Pairwise related := by
  induction items generalizing results with
  | nil =>
    cases done
    exact .nil
  | cons head rest inductionHypothesis =>
    simp only [List.mapM_cons, bind_eq_ok, pure_eq_ok] at done
    obtain ⟨first, atHead, later, doneRest, rfl⟩ := done
    obtain ⟨fromHead, among⟩ := List.pairwise_cons.mp each
    refine List.pairwise_cons.mpr ⟨fun result isLater => ?_, inductionHypothesis doneRest among⟩
    obtain ⟨item, inRest, found⟩ := (mem_of_mapM_eq_ok doneRest).2 result isLater
    exact fromHead item inRest first result atHead found

/-- Results stay results where each image that is one of them stays as it is. -/
theorem mapM_eq_ok_of_imp {image other : α → Except ε β} {items : List α} {results : List β}
    (done : items.mapM image = .ok results)
    (same : ∀ item ∈ items, ∀ result ∈ results, image item = .ok result → other item = .ok result) :
    items.mapM other = .ok results := by
  induction items generalizing results with
  | nil => exact done
  | cons item rest inductionHypothesis =>
    rw [List.mapM_cons] at done ⊢
    obtain ⟨first, doneItem, done⟩ := bind_eq_ok.mp done
    obtain ⟨others, doneRest, joined⟩ := bind_eq_ok.mp done
    cases joined
    refine bind_eq_ok.mpr ⟨first, same item List.mem_cons_self first List.mem_cons_self doneItem,
      bind_eq_ok.mpr ⟨others, inductionHypothesis doneRest ?_, rfl⟩⟩
    exact fun later inRest result isLater =>
      same later (List.mem_cons_of_mem _ inRest) result (List.mem_cons_of_mem _ isLater)

/-- Items whose image is empty may be passed over. -/
theorem flatten_mapM_filter {image : α → Except ε (List β)} {keeps : α → Bool} {items : List α}
    {results : List (List β)}
    (empty : ∀ item ∈ items, keeps item = false → image item = .ok [])
    (done : (items.filter keeps).mapM image = .ok results) :
    ∃ all, items.mapM image = .ok all ∧ all.flatten = results.flatten := by
  induction items generalizing results with
  | nil =>
    cases done
    exact ⟨[], rfl, rfl⟩
  | cons item rest inductionHypothesis =>
    have emptyRest := fun other member => empty other (List.mem_cons_of_mem _ member)
    cases kept : keeps item with
    | false =>
      rw [List.filter_cons_of_neg (by simp [kept])] at done
      obtain ⟨all, doneRest, same⟩ := inductionHypothesis emptyRest done
      refine ⟨[] :: all, ?_, same⟩
      rw [List.mapM_cons, empty item List.mem_cons_self kept, doneRest]
      rfl
    | true =>
      rw [List.filter_cons_of_pos kept, List.mapM_cons] at done
      obtain ⟨first, doneItem, done⟩ := bind_eq_ok.mp done
      obtain ⟨others, doneOthers, joined⟩ := bind_eq_ok.mp done
      cases joined
      obtain ⟨all, doneRest, same⟩ := inductionHypothesis emptyRest doneOthers
      refine ⟨first :: all, ?_, by rw [List.flatten_cons, List.flatten_cons, same]⟩
      rw [List.mapM_cons, doneItem, doneRest]
      rfl

/-- A list of results fails to exist with the error of one of the items. -/
theorem mapM_eq_error {image : α → Except ε β} {items : List α} {cause : ε}
    (failed : items.mapM image = .error cause) : ∃ item ∈ items, image item = .error cause := by
  induction items with
  | nil => exact absurd failed pure_ne_error
  | cons item rest inductionHypothesis =>
    rw [List.mapM_cons] at failed
    rcases bind_eq_error.mp failed with atOnce | ⟨value, _, later⟩
    · exact ⟨item, List.mem_cons_self, atOnce⟩
    · rcases bind_eq_error.mp later with inRest | ⟨_, _, never⟩
      · obtain ⟨other, member, failedThere⟩ := inductionHypothesis inRest
        exact ⟨other, List.mem_cons_of_mem _ member, failedThere⟩
      · exact absurd never pure_ne_error

/-! ### Kinds of errors -/

/-- Whatever error a computation ends in is of an allowed kind. -/
def FailsOnly (allowed : ε → Prop) (first : Except ε α) : Prop :=
  ∀ cause, first = .error cause → allowed cause

namespace FailsOnly

variable {allowed : ε → Prop} {first : Except ε α} {cause : ε}

theorem of_ok (value : α) : FailsOnly allowed (.ok value) := fun _ never => nomatch never

theorem of_error (isAllowed : allowed cause) : FailsOnly allowed (.error cause : Except ε α) := by
  rintro _ ⟨⟩
  exact isAllowed

theorem bind {next : α → Except ε β} (atFirst : FailsOnly allowed first)
    (later : ∀ value, first = .ok value → FailsOnly allowed (next value)) :
    FailsOnly allowed (first >>= next) := by
  intro cause failed
  rcases bind_eq_error.mp failed with atOnce | ⟨value, done, failed⟩
  · exact atFirst cause atOnce
  · exact later value done cause failed

theorem check {refused : Prop} [Decidable refused] {next : β → Except ε α}
    (isAllowed : allowed cause) (later : FailsOnly allowed first) :
    FailsOnly allowed (if refused then (throw cause : Except ε β) >>= next else first) := by
  intro other failed
  rcases check_eq_error.mp failed with ⟨_, rfl⟩ | ⟨_, failed⟩
  · exact isAllowed
  · exact later other failed

theorem mapError {change : δ → ε} {inner : Except δ α}
    (changed : FailsOnly (fun cause => allowed (change cause)) inner) :
    FailsOnly allowed (inner.mapError change) := by
  intro cause failed
  obtain ⟨other, failedInside, rfl⟩ := mapError_eq_error.mp failed
  exact changed other failedInside

/-- Errors that are all changed into allowed ones need no look at where they come from. -/
theorem of_change {change : δ → ε} (inner : Except δ α)
    (changed : ∀ cause, allowed (change cause)) : FailsOnly allowed (inner.mapError change) :=
  .mapError fun cause _ => changed cause

theorem mapM {image : α → Except ε β} {items : List α}
    (each : ∀ item ∈ items, FailsOnly allowed (image item)) :
    FailsOnly allowed (items.mapM image) := by
  intro cause failed
  obtain ⟨item, member, failed⟩ := mapM_eq_error failed
  exact each item member cause failed

/-- A loop fails as its turns do, each after the turns before it. -/
theorem foldlM {turn : σ → α → Except ε σ} {items : List α} {start : σ}
    (each : ∀ before item after state, items = before ++ item :: after →
      before.foldlM turn start = .ok state → FailsOnly allowed (turn state item)) :
    FailsOnly allowed (items.foldlM turn start) := by
  intro cause failed
  obtain ⟨before, item, after, state, split, run, failed⟩ := foldlM_eq_error failed
  exact each before item after state split run cause failed

theorem forM {visit : α → Except ε PUnit} {items : List α}
    (each : ∀ item ∈ items, FailsOnly allowed (visit item)) :
    FailsOnly allowed (items.forM visit) := by
  induction items with
  | nil => exact .of_ok _
  | cons item rest inductionHypothesis =>
    refine .bind (each item List.mem_cons_self) fun _ _ => ?_
    exact inductionHypothesis fun other later => each other (List.mem_cons_of_mem _ later)

end FailsOnly

end StackSynth.Outcome
