import RocketPuzzle.Proofs.Emission
import RocketPuzzle.Proofs.Moves
import RocketPuzzle.Proofs.Nesting

/-! # The toolbox

The blocks of a program are searched for the kinds that a level does not offer, and the loops of the
program write commands. Both walk over the same tree: a command that is written comes from a block
that is found. The search also enters the repeats that are never run, so the converse fails.
-/
namespace RocketPuzzle

/-- The kind of the blocks that write the command. -/
def Command.kind : Command → BlockKind
  | move => .move
  | turnLeft => .turnLeft
  | turnRight => .turnRight
  | collect => .collect

namespace Block

/-- Some block of the row, however deep inside repeats, is of kind `k`. -/
def Occurs (k : BlockKind) (bs : List Block) : Prop := ∃ n b, StandsIn bs n b ∧ b.kind = k

variable {k : BlockKind} {c : Command} {b : Block} {bs bs' body : List Block} {times : UInt32}

@[simp] theorem not_occurs_nil : ¬ Occurs k [] := by
  rintro ⟨n, b, hb, _⟩
  exact absurd hb.lt_heightAll (Nat.not_lt_zero n)

theorem occurs_kind (h : b ∈ bs) : Occurs b.kind bs := ⟨0, b, .placed h, rfl⟩

theorem Occurs.inside (h : Occurs k body) (hb : repeated times body ∈ bs) : Occurs k bs := by
  obtain ⟨n, b, hstands, hkind⟩ := h
  exact ⟨n + 1, b, .inside hb hstands, hkind⟩

/-- A kind occurs in a row as one of its blocks, or in the body of one of its repeats. -/
theorem occurs_iff :
    Occurs k bs ↔ ∃ b ∈ bs, b.kind = k ∨ ∃ times body, b = repeated times body ∧ Occurs k body := by
  constructor
  · rintro ⟨n, b, hstands, hkind⟩
    cases hstands with
    | placed hb => exact ⟨b, hb, .inl hkind⟩
    | @inside _ times body n _ hb hinner =>
      exact ⟨_, hb, .inr ⟨times, body, rfl, n, b, hinner, hkind⟩⟩
  · rintro ⟨b, hb, rfl | ⟨times, body, rfl, hbody⟩⟩
    · exact occurs_kind hb
    · exact hbody.inside hb

theorem Occurs.mono (h : Occurs k bs) (hsub : bs ⊆ bs') : Occurs k bs' := by
  obtain ⟨b, hb, hfound⟩ := occurs_iff.mp h
  exact occurs_iff.mpr ⟨b, hsub hb, hfound⟩

theorem occurs_cons : Occurs k (b :: bs) ↔ Occurs k [b] ∨ Occurs k bs := by
  constructor
  · intro h
    obtain ⟨d, hd, hfound⟩ := occurs_iff.mp h
    rcases List.mem_cons.mp hd with rfl | hd
    · exact .inl (occurs_iff.mpr ⟨d, List.mem_singleton_self d, hfound⟩)
    · exact .inr (occurs_iff.mpr ⟨d, hd, hfound⟩)
  · rintro (h | h)
    · exact h.mono (by simp)
    · exact h.mono (List.subset_cons_self b bs)

theorem occurs_singleton :
    Occurs k [b] ↔ b.kind = k ∨ ∃ times body, b = repeated times body ∧ Occurs k body := by
  rw [occurs_iff]
  simp only [List.mem_singleton, exists_eq_left]

theorem occurs_repeated : Occurs k [repeated times body] ↔ k = .repeated ∨ Occurs k body := by
  rw [occurs_singleton]
  constructor
  · rintro (hkind | ⟨_, _, ⟨⟩, hbody⟩)
    · exact .inl hkind.symm
    · exact .inr hbody
  · rintro (rfl | hbody)
    · exact .inl rfl
    · exact .inr ⟨times, body, rfl, hbody⟩

theorem occurs_plain (hplain : b.kind ≠ .repeated) : Occurs k [b] ↔ k = b.kind := by
  rw [occurs_singleton]
  constructor
  · rintro (hkind | ⟨_, _, rfl, _⟩)
    · exact hkind.symm
    · exact absurd rfl hplain
  · rintro rfl
    exact .inl rfl

mutual

theorem uses_iff : (b : Block) → (b.uses k = true ↔ Occurs k [b])
  | repeated times body => by
    rw [uses, Bool.or_eq_true, decide_eq_true_eq, usesAll_iff body, occurs_repeated]
  | .start | .move | .turnLeft | .turnRight | .collect => by
    rw [occurs_plain (by decide)]
    exact decide_eq_true_iff

theorem usesAll_iff : (bs : List Block) → (usesAll k bs = true ↔ Occurs k bs)
  | [] => by simp [usesAll]
  | b :: rest => by
    rw [usesAll, Bool.or_eq_true, uses_iff b, usesAll_iff rest, ← occurs_cons]

end

mutual

/-- Every copy of a body writes what the body writes, so the number of copies does not matter. -/
theorem occurs_of_mem_expansion : (b : Block) → c ∈ b.expansion → Occurs c.kind [b]
  | repeated times body, h => by
    obtain ⟨row, hrow, hc⟩ := List.mem_flatten.mp h
    obtain rfl := List.eq_of_mem_replicate hrow
    exact (occurs_of_mem_expansionAll body hc).inside (List.mem_singleton_self _)
  | .start, h => nomatch h
  | .move, h | .turnLeft, h | .turnRight, h | .collect, h => by
    obtain rfl := List.mem_singleton.mp h
    exact occurs_kind (List.mem_singleton_self _)

theorem occurs_of_mem_expansionAll :
    (bs : List Block) → c ∈ expansionAll bs → Occurs c.kind bs
  | [], h => nomatch h
  | b :: rest, h => by
    rw [occurs_cons]
    rcases List.mem_append.mp h with h | h
    · exact .inl (occurs_of_mem_expansion b h)
    · exact .inr (occurs_of_mem_expansionAll rest h)

end

end Block

theorem BlockKind.pairwise_all : all.Pairwise (·.rank < ·.rank) := by decide

namespace Program

variable {p : Program} {l : Level} {k : BlockKind} {c : Command} {cs : List Command}

theorem mem_kinds : k ∈ p.kinds ↔ Block.Occurs k p.blocks := by
  rw [kinds, List.mem_filter, Block.usesAll_iff]
  exact and_iff_right k.mem_all

theorem mem_disallowed : k ∈ p.disallowed l ↔ Block.Occurs k p.blocks ∧ k ∉ l.toolbox := by
  rw [disallowed, List.mem_filter, mem_kinds]
  simp [Level.allows]

theorem pairwise_disallowed (p : Program) (l : Level) :
    (p.disallowed l).Pairwise (·.rank < ·.rank) :=
  (BlockKind.pairwise_all.filter _).filter _

/-- A command comes from a block that the search finds, too. -/
theorem occurs_of_compile (h : p.compile = .ok cs) (hc : c ∈ cs) :
    Block.Occurs c.kind p.blocks := by
  rw [p.compile_eq_expansion] at h
  split at h
  · cases h
    exact Block.occurs_of_mem_expansionAll p.blocks hc
  · cases h

/-- The kinds that a level does not offer are listed in order and without repetition, each of them
just if the program has a block of it somewhere. Where none is listed, every command of the program
is one that the toolbox has a block for. -/
theorem toolbox_checked (p : Program) (l : Level) :
    (p.disallowed l).Pairwise (·.rank < ·.rank) ∧
      (∀ k, k ∈ p.disallowed l ↔
        (∃ n b, Block.StandsIn p.blocks n b ∧ b.kind = k) ∧ k ∉ l.toolbox) ∧
      (p.disallowed l = [] →
        ∀ cs, p.compile = .ok cs → ∀ c ∈ cs, c.kind ∈ l.toolbox) := by
  refine ⟨p.pairwise_disallowed l, fun k => mem_disallowed, ?_⟩
  intro hnone cs hcompile c hc
  by_cases hlisted : c.kind ∈ l.toolbox
  · exact hlisted
  · have hmissing : c.kind ∈ p.disallowed l :=
      mem_disallowed.mpr ⟨occurs_of_compile hcompile hc, hlisted⟩
    rw [hnone] at hmissing
    cases hmissing

/-- The body that is never run is checked with the others. -/
theorem toolbox_checked_in_a_repeat :
    let p : Program := ⟨[.start, .repeated 2 [.move, .repeated 0 [.collect]], .turnLeft]⟩
    let l := { corridor 1 with toolbox := [.repeated, .collect, .move, .start, .turnLeft] }
    let narrow := { corridor 1 with toolbox := [.repeated, .move] }
    p.disallowed l = [] ∧ p.compile = .ok [.move, .move, .turnLeft] ∧
      Command.turnLeft.kind ∈ l.toolbox ∧
      Block.StandsIn p.blocks 2 .collect ∧ .collect ∈ p.disallowed narrow ∧
      p.disallowed narrow = [.start, .turnLeft, .collect] := by
  intro p l narrow
  have hnone : p.disallowed l = [] := by decide
  have hcompile : p.compile = .ok [.move, .move, .turnLeft] := rfl
  have hcollect : Block.StandsIn p.blocks 2 .collect :=
    .inside (.tail _ (.head _)) (.inside (.tail _ (.head _)) (.placed (.head _)))
  have hmissing : BlockKind.collect ∉ narrow.toolbox := by decide
  obtain ⟨_, _, hcommands⟩ := toolbox_checked p l
  obtain ⟨_, hlisted, _⟩ := toolbox_checked p narrow
  exact ⟨hnone, hcompile, hcommands hnone _ hcompile _ (by decide), hcollect,
    (hlisted .collect).mpr ⟨⟨2, _, hcollect, rfl⟩, hmissing⟩, by decide⟩

end Program

end RocketPuzzle
