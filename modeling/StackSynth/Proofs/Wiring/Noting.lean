/-
This file treats hops as writers. A hop writes under its name into the stack that names it, and only
if nothing is written there; so a hop that has written writes nothing more, whoever wrote in
between, and two hops that give a name the same value can write in either order.
-/

import StackSynth.Proofs.Wiring.Record

namespace StackSynth

variable {tree : Tree} {state : StackWiring} {hop other : Hop}
  {states : SortedMap NodeId StackWiring} {stack : NodeId}

/-- Two hops bring the same if they bring anything under one name. -/
structure Hop.Agrees (tree : Tree) (first second : Hop) : Prop where
  supplied : first.name = second.name → ∀ {value other}, first.supplied? = some value →
    second.supplied? = some other → value = other
  shown : first.name = second.name → ∀ {declaration other},
    first.output? tree = some declaration → second.output? tree = some other → declaration = other

namespace StackWiring

/-! ### Writing into one stack -/

/-- A stack in which a hop changes nothing. -/
def Absorbs (tree : Tree) (state : StackWiring) (hop : Hop) : Prop := state.note tree hop = state

theorem absorbs_iff : state.Absorbs tree hop ↔
    (∀ value, hop.supplied? = some value → state.received.contains hop.name = true) ∧
      ∀ declaration, hop.output? tree = some declaration →
        state.outputs.contains hop.name = true := by
  rw [← SortedMap.offer_eq_self_iff, ← SortedMap.offer_eq_self_iff, ← received_note,
    ← outputs_note]
  exact ⟨fun same => ⟨congrArg StackWiring.received same, congrArg StackWiring.outputs same⟩,
    fun both => ext_received both.1 both.2⟩

/-- A hop that has written writes nothing more. -/
theorem absorbs_note (state : StackWiring) (hop : Hop) :
    (state.note tree hop).Absorbs tree hop := by
  rw [absorbs_iff, received_note, outputs_note]
  refine ⟨fun value supplied => ?_, fun declaration shown => ?_⟩
  · rw [supplied]
    exact SortedMap.contains_offer_self value
  · rw [shown]
    exact SortedMap.contains_offer_self declaration

/-- What has been written stays, whoever writes next. -/
theorem Absorbs.note (absorbs : state.Absorbs tree hop) (other : Hop) :
    (state.note tree other).Absorbs tree hop := by
  obtain ⟨received, outputs⟩ := absorbs_iff.mp absorbs
  rw [absorbs_iff, received_note, outputs_note]
  exact ⟨fun value supplied => SortedMap.contains_offer (received value supplied),
    fun declaration shown => SortedMap.contains_offer (outputs declaration shown)⟩

/-- Hops that agree can write in either order. -/
theorem note_comm (agrees : hop.Agrees tree other) :
    (state.note tree hop).note tree other = (state.note tree other).note tree hop := by
  refine ext_received ?_ ?_
  · simp only [received_note]
    exact SortedMap.offer_comm agrees.supplied
  · simp only [outputs_note]
    exact SortedMap.offer_comm agrees.shown

end StackWiring

/-! ### Writing into all stacks -/

/-- What the stacks have got after a hop. -/
def noteIn (tree : Tree) (states : SortedMap NodeId StackWiring) (hop : Hop) :
    SortedMap NodeId StackWiring :=
  states.insert hop.crossing.holder
    (((states.get? hop.crossing.holder).getD .empty).note tree hop)

theorem Wiring.states_foldl_record (tree : Tree) (hops : List Hop) (wiring : Wiring) :
    (hops.foldl (record tree) wiring).states = hops.foldl (noteIn tree) wiring.states :=
  (List.foldl_hom Wiring.states fun wiring hop => (states_record tree wiring hop).symm).symm

theorem get?_noteIn (tree : Tree) (states : SortedMap NodeId StackWiring) (hop : Hop)
    (stack : NodeId) : (noteIn tree states hop).get? stack =
      if stack = hop.crossing.holder then
        some (((states.get? stack).getD .empty).note tree hop)
      else states.get? stack := by
  by_cases atHolder : stack = hop.crossing.holder
  · rw [if_pos atHolder, atHolder]
    exact SortedMap.get?_insert_self _ _ _
  · rw [if_neg atHolder]
    exact SortedMap.get?_insert_of_ne atHolder

/-- Hops write into the stacks that name them and into no others. -/
theorem get?_foldl_noteIn {hops : List Hop}
    (elsewhere : stack ∉ hops.map (·.crossing.holder)) (states : SortedMap NodeId StackWiring) :
    (hops.foldl (noteIn tree) states).get? stack = states.get? stack := by
  refine List.foldlRecOn hops
    (motive := fun current : SortedMap NodeId StackWiring =>
      current.get? stack = states.get? stack) _ rfl fun current unchanged hop member => ?_
  have apart : stack ≠ hop.crossing.holder := fun same =>
    elsewhere (same ▸ List.mem_map.mpr ⟨hop, member, rfl⟩)
  rw [get?_noteIn, if_neg apart, unchanged]

/-- Where every stack names one hop, each has got what its hop brings. -/
theorem get?_foldl_noteIn_of_mem (tree : Tree) {hops : List Hop}
    (distinct : (hops.map (·.crossing.holder)).Nodup) (isHop : hop ∈ hops) :
    ∀ states : SortedMap NodeId StackWiring,
      (hops.foldl (noteIn tree) states).get? hop.crossing.holder =
        some (((states.get? hop.crossing.holder).getD .empty).note tree hop) := by
  induction hops with
  | nil => cases isHop
  | cons first rest inductionHypothesis =>
    intro states
    obtain ⟨alone, distinctRest⟩ := List.nodup_cons.mp distinct
    rw [List.foldl_cons]
    rcases List.mem_cons.mp isHop with rfl | later
    · rw [get?_foldl_noteIn alone, get?_noteIn, if_pos rfl]
    · have apart : hop.crossing.holder ≠ first.crossing.holder := fun same =>
        alone (List.mem_map.mpr ⟨hop, later, same⟩)
      rw [inductionHypothesis distinctRest later, get?_noteIn, if_neg apart]

/-! ### Writing again -/

/-- The stack that names a hop has got what it brings. -/
def Noted (tree : Tree) (states : SortedMap NodeId StackWiring) (hop : Hop) : Prop :=
  ∃ state, states.get? hop.crossing.holder = some state ∧ state.Absorbs tree hop

theorem noted_noteIn (states : SortedMap NodeId StackWiring) (hop : Hop) :
    Noted tree (noteIn tree states hop) hop :=
  ⟨_, SortedMap.get?_insert_self _ _ _, StackWiring.absorbs_note _ hop⟩

theorem Noted.noteIn (noted : Noted tree states hop) (other : Hop) :
    Noted tree (noteIn tree states other) hop := by
  obtain ⟨state, known, absorbs⟩ := noted
  rw [Noted, get?_noteIn]
  split
  · rw [known]
    exact ⟨_, rfl, absorbs.note other⟩
  · exact ⟨state, known, absorbs⟩

theorem noteIn_eq_self (noted : Noted tree states hop) :
    StackSynth.noteIn tree states hop = states := by
  obtain ⟨state, known, absorbs⟩ := noted
  refine SortedMap.insert_eq_self ?_
  rw [known, Option.getD_some, absorbs]

theorem Noted.foldl (hops : List Hop) : ∀ {states : SortedMap NodeId StackWiring},
    Noted tree states hop → Noted tree (hops.foldl (StackSynth.noteIn tree) states) hop := by
  induction hops with
  | nil => exact id
  | cons other rest inductionHypothesis =>
    exact fun noted => inductionHypothesis (noted.noteIn other)

/-- What hops bring is there behind them. -/
theorem noted_foldl {hops : List Hop} (isHop : hop ∈ hops) :
    ∀ states : SortedMap NodeId StackWiring, Noted tree (hops.foldl (noteIn tree) states) hop := by
  induction hops with
  | nil => cases isHop
  | cons first rest inductionHypothesis =>
    intro states
    rcases List.mem_cons.mp isHop with rfl | later
    · exact (noted_noteIn states hop).foldl rest
    · exact inductionHypothesis later _

/-- Hops whose values are there write nothing. -/
theorem foldl_noteIn_eq_self {hops : List Hop} (noted : ∀ hop ∈ hops, Noted tree states hop) :
    hops.foldl (noteIn tree) states = states := by
  refine List.foldlRecOn hops (motive := (· = states)) _ rfl fun current unchanged hop member => ?_
  rw [unchanged, noteIn_eq_self (noted hop member)]

/-! ### Writing in another order -/

/-- Hops that agree where they meet can write in either order. -/
theorem noteIn_comm (agrees : hop.crossing.holder = other.crossing.holder → hop.Agrees tree other) :
    noteIn tree (noteIn tree states hop) other = noteIn tree (noteIn tree states other) hop := by
  refine SortedMap.ext_get? fun stack => ?_
  simp only [get?_noteIn]
  by_cases atHop : stack = hop.crossing.holder
  · by_cases atOther : stack = other.crossing.holder
    · simp only [if_pos atHop, if_pos atOther, Option.getD_some]
      rw [StackWiring.note_comm (agrees (atHop.symm.trans atOther))]
    · simp only [if_pos atHop, if_neg atOther]
  · simp only [if_neg atHop]

/-- What hops that agree bring does not depend on their order. -/
theorem foldl_noteIn_perm {hops others : List Hop} (reordered : hops.Perm others)
    (agree : ∀ first ∈ hops, ∀ second ∈ hops,
      first.crossing.holder = second.crossing.holder → first.Agrees tree second)
    (states : SortedMap NodeId StackWiring) :
    hops.foldl (noteIn tree) states = others.foldl (noteIn tree) states :=
  reordered.foldl_eq' (fun first isFirst second isSecond _ =>
    noteIn_comm (agree first isFirst second isSecond)) states

end StackSynth
