import Mathlib.Computability.EpsilonNFA

/-!
# Automata put together from fragments

A fragment is a part of a graph with a start and a vertex that accepts, which
nothing leaves. Fragments are put one behind another, side by side, or into a
loop, by adding silent edges, and read the words of the product, the sum or the
iteration of their languages.
-/

set_option autoImplicit false

namespace FrankenEngine.Library

open Computability Language List

variable {V α : Type}

/-- A path that reads the word, with silent edges on the way. -/
inductive Path (graph : V → Option α → V → Prop) : V → List α → V → Prop where
  | refl (vertex : V) : Path graph vertex [] vertex
  | head {first next last : V} {label : Option α} {word : List α} (edge : graph first label next)
      (rest : Path graph next word last) : Path graph first (label.toList ++ word) last

namespace Path

variable {graph wider : V → Option α → V → Prop} {first middle last : V} {word more : List α}

theorem silent (edge : graph first none middle) (rest : Path graph middle word last) :
    Path graph first word last :=
  .head edge rest

theorem append (left : Path graph first word middle) (right : Path graph middle more last) :
    Path graph first (word ++ more) last := by
  induction left with
  | refl => exact right
  | head edge _ ih =>
    rw [append_assoc]
    exact .head edge (ih right)

theorem mono (path : Path graph first word last)
    (wide : ∀ {source label target}, graph source label target → wider source label target) :
    Path wider first word last := by
  induction path with
  | refl => exact .refl _
  | head edge _ ih => exact .head (wide edge) ih

theorem eq_of_final (final : ∀ label target, ¬ graph first label target)
    (path : Path graph first word last) : word = [] ∧ last = first := by
  cases path with
  | refl => exact ⟨rfl, rfl⟩
  | head edge => exact absurd edge (final _ _)

theorem eq_of_source (source : ∀ vertex label, ¬ graph vertex label last)
    (path : Path graph first word last) : word = [] ∧ first = last := by
  induction path with
  | refl => exact ⟨rfl, rfl⟩
  | head edge _ ih =>
    obtain ⟨-, rfl⟩ := ih source
    exact absurd edge (source _ _)

theorem leave {inside : Set V} {exit : V} {targets : V → Prop}
    (edges : ∀ {source label target}, source ∈ inside → wider source label target →
      (graph source label target ∧ target ∈ inside) ∨ source = exit ∧ label = none ∧ targets target)
    (path : Path wider first word last) (within : first ∈ inside) :
    (Path graph first word last ∧ last ∈ inside) ∨
      ∃ before after target, word = before ++ after ∧ Path graph first before exit ∧
        targets target ∧ Path wider target after last := by
  induction path with
  | refl => exact .inl ⟨.refl _, within⟩
  | @head source next last label word edge rest ih =>
    rcases edges within edge with ⟨inner, nextWithin⟩ | ⟨rfl, rfl, target⟩
    · rcases ih nextWithin with ⟨path, lastWithin⟩ | ⟨before, after, target, rfl, path, reached, onward⟩
      · exact .inl ⟨.head inner path, lastWithin⟩
      · exact .inr ⟨label.toList ++ before, after, target, (append_assoc ..).symm,
          .head inner path, reached, onward⟩
    · exact .inr ⟨[], word, next, rfl, .refl _, target, rest⟩

end Path

theorem mem_accepts_iff_path {automaton : εNFA α V} {word : List α} :
    word ∈ automaton.accepts ↔ ∃ first ∈ automaton.start, ∃ last ∈ automaton.accept,
      Path (fun source label target => target ∈ automaton.step source label) first word last := by
  have path_iff : ∀ {first last : V} {word : List α},
      Path (fun source label target => target ∈ automaton.step source label) first word last ↔
        ∃ labels, labels.reduceOption = word ∧ automaton.IsPath first last labels := by
    intro first last word
    constructor
    · intro path
      induction path with
      | refl => exact ⟨[], rfl, .nil _⟩
      | @head first next last label word edge _ ih =>
        obtain ⟨labels, rfl, path⟩ := ih
        refine ⟨label :: labels, ?_, .cons next first last label labels edge path⟩
        cases label <;> rfl
    · rintro ⟨labels, rfl, path⟩
      induction path with
      | nil => exact .refl _
      | cons next first last label labels edge _ ih =>
        cases label with
        | none | some => exact .head edge ih
  rw [εNFA.mem_accepts_iff_exists_path]
  constructor
  · rintro ⟨first, last, labels, started, accepted, read, path⟩
    exact ⟨first, started, last, accepted, path_iff.mpr ⟨labels, read, path⟩⟩
  · rintro ⟨first, started, last, accepted, path⟩
    obtain ⟨labels, read, path⟩ := path_iff.mp path
    exact ⟨first, last, labels, started, accepted, read, path⟩

structure Fragment (graph : V → Option α → V → Prop) (inside : Set V) (start accept : V)
    (language : Language α) : Prop where
  start_mem : start ∈ inside
  accept_mem : accept ∈ inside
  closed : ∀ {source label target}, graph source label target → source ∈ inside ∧ target ∈ inside
  final : ∀ label target, ¬ graph accept label target
  reads : ∀ word, Path graph start word accept ↔ word ∈ language

namespace Fragment

variable {graph other : V → Option α → V → Prop} {inside outside : Set V}
  {start accept otherStart otherAccept : V} {language otherLanguage : Language α}

theorem single {vertex : V} (member : vertex ∈ inside) (none : ∀ source label target,
    ¬ graph source label target) : Fragment graph inside vertex vertex 1 where
  start_mem := member
  accept_mem := member
  closed edge := absurd edge (none _ _ _)
  final := none vertex
  reads word := by
    constructor
    · exact fun path => (path.eq_of_final (none vertex)).1
    · rintro rfl
      exact .refl vertex

theorem letter {letters : Set α} (startMem : start ∈ inside) (acceptMem : accept ∈ inside)
    (different : start ≠ accept)
    (edges : ∀ source label target, graph source label target ↔
      source = start ∧ target = accept ∧ ∃ letter ∈ letters, label = some letter) :
    Fragment graph inside start accept {word | ∃ letter ∈ letters, word = [letter]} where
  start_mem := startMem
  accept_mem := acceptMem
  closed edge := by
    obtain ⟨rfl, rfl, -⟩ := (edges _ _ _).mp edge
    exact ⟨startMem, acceptMem⟩
  final label target edge := different ((edges _ _ _).mp edge).1.symm
  reads word := by
    constructor
    · intro path
      cases path with
      | refl => exact absurd rfl different
      | head edge rest =>
        obtain ⟨-, rfl, letter, member, rfl⟩ := (edges _ _ _).mp edge
        have ended := rest.eq_of_final fun label target onward =>
          different ((edges _ _ _).mp onward).1.symm
        exact ⟨letter, member, by rw [ended.1]; rfl⟩
    · rintro ⟨letter, member, rfl⟩
      exact .head ((edges _ _ _).mpr ⟨rfl, rfl, letter, member, rfl⟩) (.refl accept)

variable {joined : V → Option α → V → Prop}

theorem concat (left : Fragment graph inside start accept language)
    (right : Fragment other outside otherStart otherAccept otherLanguage)
    (apart : ∀ vertex ∈ inside, vertex ∉ outside)
    (edges : ∀ source label target, joined source label target ↔
      graph source label target ∨ other source label target ∨
        source = accept ∧ label = none ∧ target = otherStart) :
    Fragment joined (inside ∪ outside) start otherAccept (language * otherLanguage) where
  start_mem := .inl left.start_mem
  accept_mem := .inr right.accept_mem
  closed edge := by
    rcases (edges _ _ _).mp edge with inner | outer | ⟨rfl, -, rfl⟩
    · exact ⟨.inl (left.closed inner).1, .inl (left.closed inner).2⟩
    · exact ⟨.inr (right.closed outer).1, .inr (right.closed outer).2⟩
    · exact ⟨.inl left.accept_mem, .inr right.start_mem⟩
  final label target edge := by
    rcases (edges _ _ _).mp edge with inner | outer | ⟨same, -, -⟩
    · exact apart _ (left.closed inner).1 right.accept_mem
    · exact right.final label target outer
    · exact apart _ (same ▸ left.accept_mem) right.accept_mem
  reads word := by
    constructor
    · intro path
      -- The path leaves the left part through its accepting vertex and stays in the right part.
      have leftEdges : ∀ {source label target}, source ∈ inside → joined source label target →
          (graph source label target ∧ target ∈ inside) ∨
            source = accept ∧ label = none ∧ target = otherStart := by
        intro source label target within edge
        rcases (edges _ _ _).mp edge with inner | outer | bridge
        · exact .inl ⟨inner, (left.closed inner).2⟩
        · exact absurd (right.closed outer).1 (apart source within)
        · exact .inr bridge
      have rightEdges : ∀ {source label target}, source ∈ outside → joined source label target →
          (other source label target ∧ target ∈ outside) ∨
            source = otherAccept ∧ label = none ∧ False := by
        intro source label target within edge
        rcases (edges _ _ _).mp edge with inner | outer | ⟨same, -, -⟩
        · exact absurd within (apart source (left.closed inner).1)
        · exact .inl ⟨outer, (right.closed outer).2⟩
        · exact absurd within (apart source (same ▸ left.accept_mem))
      rcases path.leave leftEdges left.start_mem with
        ⟨-, stayed⟩ | ⟨before, after, target, rfl, inner, rfl, onward⟩
      · exact absurd right.accept_mem (apart _ stayed)
      · rcases onward.leave rightEdges right.start_mem with ⟨outer, -⟩ | ⟨_, _, _, _, _, none, _⟩
        · exact ⟨before, (left.reads before).mp inner, after, (right.reads after).mp outer, rfl⟩
        · cases none
    · rintro ⟨before, inner, after, outer, rfl⟩
      have leftPath := ((left.reads before).mpr inner).mono fun edge => (edges _ _ _).mpr (.inl edge)
      have rightPath := ((right.reads after).mpr outer).mono fun edge =>
        (edges _ _ _).mpr (.inr (.inl edge))
      exact leftPath.append (.silent ((edges _ _ _).mpr (.inr (.inr ⟨rfl, rfl, rfl⟩))) rightPath)

theorem branch (main : Fragment graph inside start accept language)
    (side : Fragment other outside otherStart otherAccept otherLanguage)
    (apart : ∀ vertex ∈ inside, vertex ∉ outside) (different : start ≠ accept)
    (source_start : ∀ source label, ¬ graph source label start)
    (edges : ∀ source label target, joined source label target ↔
      graph source label target ∨ other source label target ∨
        source = start ∧ label = none ∧ target = otherStart ∨
        source = otherAccept ∧ label = none ∧ target = accept) :
    Fragment joined (inside ∪ outside) start accept (language + otherLanguage) := by
  have final : ∀ label target, ¬ joined accept label target := by
    intro label target edge
    rcases (edges _ _ _).mp edge with inner | outer | ⟨same, -, -⟩ | ⟨same, -, -⟩
    · exact main.final label target inner
    · exact apart _ main.accept_mem (side.closed outer).1
    · exact different same.symm
    · exact apart _ main.accept_mem (same ▸ side.accept_mem)
  refine ⟨.inl main.start_mem, .inl main.accept_mem, ?_, final, ?_⟩
  · intro source label target edge
    rcases (edges _ _ _).mp edge with inner | outer | ⟨rfl, -, rfl⟩ | ⟨rfl, -, rfl⟩
    · exact ⟨.inl (main.closed inner).1, .inl (main.closed inner).2⟩
    · exact ⟨.inr (side.closed outer).1, .inr (side.closed outer).2⟩
    · exact ⟨.inl main.start_mem, .inr side.start_mem⟩
    · exact ⟨.inr side.accept_mem, .inl main.accept_mem⟩
  intro word
  -- A path stays in the main part, or leaves it at once for the side part, up to its end.
  have mainEdges : ∀ {source label target}, source ∈ inside → joined source label target →
      (graph source label target ∧ target ∈ inside) ∨
        source = start ∧ label = none ∧ target = otherStart := by
    intro source label target within edge
    rcases (edges _ _ _).mp edge with inner | outer | bridge | ⟨same, -, -⟩
    · exact .inl ⟨inner, (main.closed inner).2⟩
    · exact absurd (side.closed outer).1 (apart source within)
    · exact .inr bridge
    · exact absurd (same ▸ side.accept_mem) (apart source within)
  have sideEdges : ∀ {source label target}, source ∈ outside → joined source label target →
      (other source label target ∧ target ∈ outside) ∨
        source = otherAccept ∧ label = none ∧ target = accept := by
    intro source label target within edge
    rcases (edges _ _ _).mp edge with inner | outer | ⟨same, -, -⟩ | bridge
    · exact absurd within (apart source (main.closed inner).1)
    · exact .inl ⟨outer, (side.closed outer).2⟩
    · exact absurd within (apart source (same ▸ main.start_mem))
    · exact .inr bridge
  constructor
  · intro path
    rcases path.leave mainEdges main.start_mem with
      ⟨inner, -⟩ | ⟨before, after, target, rfl, back, rfl, onward⟩
    · exact .inl ((main.reads word).mp inner)
    · obtain ⟨rfl, -⟩ := back.eq_of_source source_start
      rcases onward.leave sideEdges side.start_mem with
        ⟨-, stayed⟩ | ⟨before, after, target, rfl, through, rfl, onward⟩
      · exact absurd stayed (apart _ main.accept_mem)
      · obtain ⟨rfl, -⟩ := onward.eq_of_final final
        rw [append_nil]
        exact .inr ((side.reads before).mp through)
  · rintro (member | member)
    · exact ((main.reads word).mpr member).mono fun edge => (edges _ _ _).mpr (.inl edge)
    · have path := ((side.reads word).mpr member).mono fun edge =>
        (edges _ _ _).mpr (.inr (.inl edge))
      have through := path.append (.silent ((edges _ _ _).mpr (.inr (.inr (.inr ⟨rfl, rfl, rfl⟩))))
        (.refl accept))
      rw [append_nil] at through
      exact .silent ((edges _ _ _).mpr (.inr (.inr (.inl ⟨rfl, rfl, rfl⟩)))) through

/-- What a fragment between a new start and a new accepting vertex reads, if it can be skipped or
repeated. -/
def wrapped (skip loop : Bool) (language : Language α) : Language α :=
  (if skip then 1 else 0) + if loop then language * language∗ else language

section Wrap

variable {whole : Set V} {newStart newAccept : V} {skip loop : Bool}
  {joined : V → Option α → V → Prop}

/-- The edges that put a fragment between a new start and a new accepting vertex. -/
def Wraps (graph joined : V → Option α → V → Prop) (start accept newStart newAccept : V)
    (skip loop : Bool) : Prop :=
  ∀ source label target, joined source label target ↔
    graph source label target ∨
      source = newStart ∧ label = none ∧ (target = start ∨ skip = true ∧ target = newAccept) ∨
      source = accept ∧ label = none ∧ (loop = true ∧ target = start ∨ target = newAccept)

variable (child : Fragment graph inside start accept language)

include child

theorem exists_rounds (startNew : newStart ∉ inside) (acceptNew : newAccept ∉ inside)
    (final : ∀ label target, ¬ joined newAccept label target)
    (edges : Wraps graph joined start accept newStart newAccept skip loop) {first last : V}
    {word : List α} (path : Path joined first word last) (within : first ∈ inside)
    (ended : last = newAccept) :
    ∃ before after, word = before ++ after ∧ Path graph first before accept ∧
      after ∈ if loop then language∗ else 1 := by
  have nothing : [] ∈ if loop then language∗ else 1 := by
    split
    · exact nil_mem_kstar language
    · exact nil_mem_one
  induction path with
  | refl => exact absurd (ended ▸ within) acceptNew
  | @head source next last label word edge rest ih =>
    rcases (edges _ _ _).mp edge with inner | ⟨rfl, -, -⟩ | ⟨rfl, rfl, ⟨again, rfl⟩ | rfl⟩
    · obtain ⟨before, after, rfl, path, rounds⟩ := ih (child.closed inner).2 ended
      exact ⟨label.toList ++ before, after, (append_assoc ..).symm, .head inner path, rounds⟩
    · exact absurd within startNew
    · obtain ⟨before, after, rfl, path, rounds⟩ := ih child.start_mem ended
      refine ⟨[], before ++ after, rfl, .refl _, ?_⟩
      rw [if_pos again] at rounds ⊢
      rw [← one_add_self_mul_kstar_eq_kstar]
      exact .inr (append_mem_mul ((child.reads before).mp path) rounds)
    · obtain ⟨rfl, -⟩ := rest.eq_of_final final
      exact ⟨[], [], rfl, .refl _, nothing⟩

theorem path_rounds (edges : Wraps graph joined start accept newStart newAccept skip true)
    {word : List α} (rounds : word ∈ language∗) : Path joined accept word newAccept := by
  obtain ⟨parts, rfl, each⟩ := mem_kstar.mp rounds
  clear rounds
  induction parts with
  | nil => exact .silent ((edges _ _ _).mpr (.inr (.inr ⟨rfl, rfl, .inr rfl⟩))) (.refl newAccept)
  | cons part parts ih =>
    obtain ⟨own, others⟩ := forall_mem_cons.mp each
    have round := ((child.reads part).mpr own).mono fun edge => (edges _ _ _).mpr (.inl edge)
    have onward := ih others
    exact .silent ((edges _ _ _).mpr (.inr (.inr ⟨rfl, rfl, .inl ⟨rfl, rfl⟩⟩)))
      (round.append onward)

theorem wrap (subset : inside ⊆ whole) (startMem : newStart ∈ whole)
    (startNew : newStart ∉ inside) (acceptMem : newAccept ∈ whole)
    (acceptNew : newAccept ∉ inside) (different : newStart ≠ newAccept)
    (edges : Wraps graph joined start accept newStart newAccept skip loop) :
    Fragment joined whole newStart newAccept (wrapped skip loop language) := by
  have final : ∀ label target, ¬ joined newAccept label target := by
    intro label target edge
    rcases (edges _ _ _).mp edge with inner | ⟨same, -, -⟩ | ⟨same, -, -⟩
    · exact acceptNew (child.closed inner).1
    · exact different same.symm
    · exact acceptNew (same ▸ child.accept_mem)
  refine ⟨startMem, acceptMem, ?_, final, ?_⟩
  · intro source label target edge
    rcases (edges _ _ _).mp edge with inner | ⟨rfl, -, rfl | ⟨-, rfl⟩⟩ | ⟨rfl, -, ⟨-, rfl⟩ | rfl⟩
    · exact ⟨subset (child.closed inner).1, subset (child.closed inner).2⟩
    · exact ⟨startMem, subset child.start_mem⟩
    · exact ⟨startMem, acceptMem⟩
    · exact ⟨subset child.accept_mem, subset child.start_mem⟩
    · exact ⟨subset child.accept_mem, acceptMem⟩
  intro word
  rw [wrapped, mem_add]
  constructor
  · intro path
    cases path with
    | refl => exact absurd rfl different
    | head edge rest =>
      rcases (edges _ _ _).mp edge with
        inner | ⟨-, rfl, rfl | ⟨skipped, rfl⟩⟩ | ⟨same, -, -⟩
      · exact absurd (child.closed inner).1 startNew
      · obtain ⟨before, after, rfl, path, rounds⟩ :=
          child.exists_rounds startNew acceptNew final edges rest child.start_mem rfl
        have own := (child.reads before).mp path
        refine .inr ?_
        cases loop with
        | true =>
          have member : before ++ after ∈ language * language∗ :=
            append_mem_mul own rounds
          exact member
        | false =>
          rw [(mem_one after).mp rounds, append_nil]
          exact own
      · obtain ⟨rfl, -⟩ := rest.eq_of_final final
        rw [if_pos skipped]
        exact .inl rfl
      · exact absurd (same ▸ child.accept_mem) startNew
  · have enter : joined newStart none start := (edges _ _ _).mpr (.inr (.inl ⟨rfl, rfl, .inl rfl⟩))
    have inner : ∀ {part}, part ∈ language → Path joined start part accept := fun member =>
      ((child.reads _).mpr member).mono fun edge => (edges _ _ _).mpr (.inl edge)
    rintro (skipped | member)
    · cases skip with
      | false => cases skipped
      | true =>
        rw [(mem_one word).mp skipped]
        exact .silent ((edges _ _ _).mpr (.inr (.inl ⟨rfl, rfl, .inr ⟨rfl, rfl⟩⟩)))
          (.refl newAccept)
    · cases loop with
      | true =>
        obtain ⟨part, own, rest, rounds, rfl⟩ := mem_mul.mp member
        exact .silent enter ((inner own).append (child.path_rounds edges rounds))
      | false =>
        have leave : joined accept none newAccept :=
          (edges _ _ _).mpr (.inr (.inr ⟨rfl, rfl, .inr rfl⟩))
        have through := (inner member).append (.silent leave (.refl newAccept))
        rw [append_nil] at through
        exact .silent enter through

end Wrap

end Fragment

end FrankenEngine.Library
