/-
  How the blocks of a script that was read from a text lie.

  The blocks of all handlers lie in one list and refer to each other by index.  For a script of
  any origin that can be a circle.  The parser numbers blocks in the order of their opening
  braces, so in what it returns a block refers only to blocks behind it (`Script.Forward`), and
  whoever follows the references comes to an end.

  A piece of a script that will start at index `base` is forward if that holds from there on
  (`Chunk.Forward`).  For every function of the grammar it is shown that the blocks it adds are
  forward, and that its statements refer to none before `base`.
-/
import ActorScript.Parser.Declaration

namespace ActorScript

/-- Every statement of the script refers only to blocks behind the one it is in. -/
def Script.Forward (script : Script) : Prop :=
  ∀ (b i : Nat) st, script.statement? b i = some st → ∀ t ∈ st.targets, b < t

namespace Parser

/-- The blocks, of which the first has the index `base`, refer only to blocks behind them. -/
def Chunk.Forward (base : Nat) (chunk : Chunk) : Prop :=
  ∀ j body, chunk[j]? = some body → ∀ st ∈ body, ∀ t ∈ st.targets, base + j < t

namespace Chunk

/-- No blocks go anywhere. -/
theorem forward_nil (base : Nat) : Forward base [] := by
  intro j body hj
  cases hj

/-- A block goes first, and its targets are behind it. -/
theorem forward_cons {base : Nat} {body : Block} {nested : Chunk}
    (hbody : ∀ st ∈ body, ∀ t ∈ st.targets, base + 1 ≤ t) (h : Forward (base + 1) nested) :
    Forward base (body :: nested) := by
  intro j body' hj st hst t ht
  cases j with
  | zero =>
    cases hj
    exact hbody st hst t ht
  | succ j =>
    have := h j body' hj st hst t ht
    omega

/-- What is appended is numbered from where the blocks before it end. -/
theorem Forward.append {base : Nat} {c₁ c₂ : Chunk} (h₁ : Forward base c₁)
    (h₂ : Forward (base + c₁.length) c₂) : Forward base (c₁ ++ c₂) := by
  intro j body hj st hst t ht
  rcases Nat.lt_or_ge j c₁.length with hlt | hge
  · rw [List.getElem?_append_left hlt] at hj
    exact h₁ j body hj st hst t ht
  · rw [List.getElem?_append_right hge] at hj
    have := h₂ (j - c₁.length) body hj st hst t ht
    omega

end Chunk

/-! ## Statements -/

/-- Taking apart a step of a parser that has succeeded. -/
theorem bind_eq_ok {α β : Type} {x : Except Error α} {f : α → Except Error β} {b : β}
    (h : (x >>= f) = .ok b) : ∃ a, x = .ok a ∧ f a = .ok b := by
  cases x with
  | error e => cases h
  | ok a => exact ⟨a, rfl, h⟩

/-- A statement that is not an `if` refers to no block. -/
theorem targets_simpleStatement {finish : Location} {ts : List Token} {st : Statement}
    {r : Shorter ts} (h : simpleStatement finish ts = .ok (st, r)) : st.targets = [] := by
  rw [simpleStatement] at h
  obtain ⟨⟨name, r₁⟩, -, h⟩ := bind_eq_ok h
  simp only at h
  split at h
  · obtain ⟨⟨args, r₂⟩, -, h⟩ := bind_eq_ok h
    obtain ⟨r₃, -, h⟩ := bind_eq_ok h
    cases h
    rfl
  · obtain ⟨⟨register, r₂⟩, -, h⟩ := bind_eq_ok h
    obtain ⟨r₃, -, h⟩ := bind_eq_ok h
    obtain ⟨⟨value, r₄⟩, -, h⟩ := bind_eq_ok h
    obtain ⟨r₅, -, h⟩ := bind_eq_ok h
    cases h
    rfl
  · obtain ⟨r₂, -, h⟩ := bind_eq_ok h
    obtain ⟨⟨value, r₃⟩, -, h⟩ := bind_eq_ok h
    obtain ⟨r₄, -, h⟩ := bind_eq_ok h
    cases h
    rfl
  · cases h

mutual

/-- The chunk of a block is forward. -/
theorem forward_block (finish : Location) (base : Nat) (ts : List Token) {chunk : Chunk}
    {r : Shorter ts} (h : block finish base ts = .ok (chunk, r)) : chunk.Forward base := by
  rw [block] at h
  obtain ⟨r₁, -, h⟩ := bind_eq_ok h
  obtain ⟨⟨body, nested, r₂⟩, hbody, h⟩ := bind_eq_ok h
  cases h
  obtain ⟨hnested, hstatements⟩ := forward_statements finish _ (base + 1) r₁.1 hbody
  exact Chunk.forward_cons hstatements hnested
termination_by (ts.length, 0)
decreasing_by exact Shorter.lex_left _ _ _

/-- The blocks of one statement are numbered behind those of the statements before it. -/
theorem forward_statements (finish start : Location) (base : Nat) (ts : List Token) {body : Block}
    {nested : Chunk} {r : Shorter ts}
    (h : statements finish start base ts = .ok (body, nested, r)) :
    nested.Forward base ∧ ∀ st ∈ body, ∀ t ∈ st.targets, base ≤ t := by
  rw [statements] at h
  split at h
  · cases h
    exact ⟨Chunk.forward_nil base, by simp⟩
  · split at h
    · cases h
    · obtain ⟨⟨first, nested₁, r₁⟩, hfirst, h⟩ := bind_eq_ok h
      obtain ⟨⟨others, nested₂, r₂⟩, hothers, h⟩ := bind_eq_ok h
      cases h
      obtain ⟨hnested₁, hfirst⟩ := forward_statement finish base ts hfirst
      -- the nested blocks of the other statements come behind those of the first
      obtain ⟨hnested₂, hothers⟩ :=
        forward_statements finish start (base + nested₁.length) r₁.1 hothers
      refine ⟨hnested₁.append hnested₂, ?_⟩
      intro st hst t ht
      rcases List.mem_cons.mp hst with rfl | hst
      · exact hfirst t ht
      · have := hothers st hst t ht
        omega
termination_by (ts.length, 2)
decreasing_by
  · exact Prod.Lex.right _ (by decide)
  · exact Shorter.lex_left _ _ _

/-- A simple statement has no blocks. -/
theorem forward_statement (finish : Location) (base : Nat) (ts : List Token) {st : Statement}
    {nested : Chunk} {r : Shorter ts} (h : statement finish base ts = .ok (st, nested, r)) :
    nested.Forward base ∧ ∀ t ∈ st.targets, base ≤ t := by
  rw [statement] at h
  split at h
  · exact forward_ifStatement finish base ts h
  · obtain ⟨⟨st', r₁⟩, hst, h⟩ := bind_eq_ok h
    cases h
    refine ⟨Chunk.forward_nil base, ?_⟩
    rw [targets_simpleStatement hst]
    simp
termination_by (ts.length, 1)
decreasing_by exact Prod.Lex.right _ (by decide)

/-- The blocks of an `if` are numbered from `base` on, first one branch and then the other. -/
theorem forward_ifStatement (finish : Location) (base : Nat) (ts : List Token) {st : Statement}
    {nested : Chunk} {r : Shorter ts} (h : ifStatement finish base ts = .ok (st, nested, r)) :
    nested.Forward base ∧ ∀ t ∈ st.targets, base ≤ t := by
  rw [ifStatement] at h
  obtain ⟨r₁, -, h⟩ := bind_eq_ok h
  obtain ⟨r₂, -, h⟩ := bind_eq_ok h
  obtain ⟨⟨condition, r₃⟩, -, h⟩ := bind_eq_ok h
  obtain ⟨r₄, -, h⟩ := bind_eq_ok h
  obtain ⟨⟨thenChunk, r₅⟩, hthen, h⟩ := bind_eq_ok h
  have hforward := forward_block finish base _ hthen
  simp only at h
  split at h
  · cases h
    refine ⟨hforward, ?_⟩
    simp [Statement.targets]
  · split at h
    · -- `else if`: the block of the `else` holds the inner `if` and nothing else
      obtain ⟨⟨inner, nested', r₇⟩, hinner, h⟩ := bind_eq_ok h
      cases h
      obtain ⟨hnested, htargets⟩ := forward_ifStatement finish _ _ hinner
      refine ⟨hforward.append (Chunk.forward_cons ?_ hnested), ?_⟩
      · intro st hst t ht
        obtain rfl := List.mem_singleton.mp hst
        exact htargets t ht
      · simp [Statement.targets]
    · obtain ⟨⟨elseChunk, r₇⟩, helse, h⟩ := bind_eq_ok h
      cases h
      refine ⟨hforward.append (forward_block finish _ _ helse), ?_⟩
      simp [Statement.targets]
termination_by (ts.length, 0)
decreasing_by all_goals exact Shorter.lex_left _ _ _

end

/-! ## Declarations -/

/-- A handler is numbered behind the handlers before it. -/
theorem forward_handlers (finish start : Location) (name : String) (base : Nat)
    (found : EventMap BlockId) (ts : List Token) {all : EventMap BlockId} {chunk : Chunk}
    {r : Shorter ts} (h : handlers finish start name base found ts = .ok (all, chunk, r)) :
    chunk.Forward base := by
  rw [handlers] at h
  split at h
  · cases h
    exact Chunk.forward_nil base
  · split at h
    · cases h
    · obtain ⟨r₁, -, h⟩ := bind_eq_ok h
      obtain ⟨⟨eventName, r₂⟩, -, h⟩ := bind_eq_ok h
      simp only at h
      split at h
      · split at h
        · cases h
        · obtain ⟨r₃, -, h⟩ := bind_eq_ok h
          obtain ⟨r₄, -, h⟩ := bind_eq_ok h
          obtain ⟨⟨chunk₁, r₅⟩, hblock, h⟩ := bind_eq_ok h
          obtain ⟨⟨all', chunk₂, r₆⟩, hrest, h⟩ := bind_eq_ok h
          cases h
          exact (forward_block finish base _ hblock).append
            (forward_handlers finish start name _ _ _ hrest)
      · cases h
termination_by ts.length
decreasing_by exact Shorter.length_lt _

/-- Constants and variables add no blocks. -/
theorem blocks_constant {finish : Location} {script script' : Script} {ts : List Token}
    {r : Shorter ts} (h : constant finish script ts = .ok (script', r)) :
    script'.blocks = script.blocks := by
  rw [constant] at h
  obtain ⟨r₁, -, h⟩ := bind_eq_ok h
  obtain ⟨⟨name, r₂⟩, -, h⟩ := bind_eq_ok h
  obtain ⟨-, -, h⟩ := bind_eq_ok h
  obtain ⟨r₃, -, h⟩ := bind_eq_ok h
  obtain ⟨⟨value, r₄⟩, -, h⟩ := bind_eq_ok h
  obtain ⟨r₅, -, h⟩ := bind_eq_ok h
  cases h
  rfl

/-- A variable adds none either. -/
theorem blocks_variableDeclaration {finish : Location} {script script' : Script} {ts : List Token}
    {r : Shorter ts} (h : variableDeclaration finish script ts = .ok (script', r)) :
    script'.blocks = script.blocks := by
  rw [variableDeclaration] at h
  obtain ⟨r₁, -, h⟩ := bind_eq_ok h
  obtain ⟨⟨name, r₂⟩, -, h⟩ := bind_eq_ok h
  obtain ⟨-, -, h⟩ := bind_eq_ok h
  obtain ⟨⟨initial, r₃⟩, -, h⟩ := bind_eq_ok h
  obtain ⟨r₄, -, h⟩ := bind_eq_ok h
  cases h
  rfl

/-- A state appends the blocks of its handlers. -/
theorem forward_stateDeclaration {finish : Location} {script script' : Script} {ts : List Token}
    {r : Shorter ts} (h : stateDeclaration finish script ts = .ok (script', r))
    (hs : Chunk.Forward 0 script.blocks) : Chunk.Forward 0 script'.blocks := by
  rw [stateDeclaration] at h
  obtain ⟨r₁, -, h⟩ := bind_eq_ok h
  obtain ⟨⟨name, r₂⟩, -, h⟩ := bind_eq_ok h
  simp only at h
  split at h
  · cases h
  · obtain ⟨r₃, -, h⟩ := bind_eq_ok h
    obtain ⟨⟨condition, r₄⟩, -, h⟩ := bind_eq_ok h
    obtain ⟨r₅, -, h⟩ := bind_eq_ok h
    obtain ⟨r₆, -, h⟩ := bind_eq_ok h
    obtain ⟨⟨found, chunk, r₇⟩, hhandlers, h⟩ := bind_eq_ok h
    cases h
    have hchunk := forward_handlers _ _ _ _ _ _ hhandlers
    refine hs.append ?_
    rwa [Nat.zero_add]

/-- What has been read of a script so far is forward. -/
theorem forward_declaration {finish : Location} {script script' : Script} {ts : List Token}
    {r : Shorter ts} (h : declaration finish script ts = .ok (script', r))
    (hs : Chunk.Forward 0 script.blocks) : Chunk.Forward 0 script'.blocks := by
  rw [declaration] at h
  split at h
  · rwa [blocks_constant h]
  · rwa [blocks_variableDeclaration h]
  · rwa [blocks_variableDeclaration h]
  · exact forward_stateDeclaration h hs
  · cases h

/-- **All declarations** of a script, one after another. -/
theorem forward_declarations (finish : Location) (script : Script) (ts : List Token)
    {script' : Script} (h : declarations finish script ts = .ok script')
    (hs : Chunk.Forward 0 script.blocks) : Chunk.Forward 0 script'.blocks := by
  rw [declarations] at h
  split at h
  · cases h
    exact hs
  · obtain ⟨⟨script₁, r₁⟩, hfirst, h⟩ := bind_eq_ok h
    exact forward_declarations finish script₁ r₁.1 h (forward_declaration hfirst hs)
termination_by ts.length
decreasing_by exact Shorter.length_lt _

end Parser

/-- **A script that was read from a text** refers only forward. -/
theorem Script.forward_of_parse {source : String} {script : Script}
    (h : Script.parse source = .ok script) : script.Forward := by
  rw [parse] at h
  obtain ⟨ts, -, h⟩ := Parser.bind_eq_ok h
  have hblocks : Parser.Chunk.Forward 0 script.blocks :=
    Parser.forward_declarations _ _ _ h (Parser.Chunk.forward_nil 0)
  intro b i st hst t ht
  rw [statement?, block] at hst
  cases hb : script.blocks[b]? with
  | none =>
    rw [hb] at hst
    cases hst
  | some body =>
    rw [hb] at hst
    have := hblocks b body hb st (List.mem_of_getElem? hst) t ht
    rwa [Nat.zero_add] at this

end ActorScript
